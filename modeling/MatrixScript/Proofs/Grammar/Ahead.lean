import MatrixScript.Proofs.Grammar.Progress
import MatrixScript.Proofs.Lexer.Writing

/-!
The tokens between one state of a parser and another.

`Ahead s tokens t` says that a parser that uses up `tokens` at `s` and reports nothing comes to `t`.
Whatever tokens are written one after the other are passed one after the other.
-/

set_option autoImplicit false

namespace MatrixScript.Grammar

/-- Using up tokens leads from one state to another. -/
inductive Ahead : State → List Token → State → Prop
  | nil (s : State) : Ahead s [] s
  | cons {s t : State} {placed : PlacedToken} {rest : List PlacedToken} {tokens : List Token}
      (front : s.rest = placed :: rest)
      (later : Ahead { s with previous := some placed.token, rest := rest } tokens t) :
      Ahead s (placed.token :: tokens) t

namespace Ahead

variable {s t u : State} {token : Token} {tokens more : List Token}

theorem append : Ahead s (tokens ++ more) u → ∃ t, Ahead s tokens t ∧ Ahead t more u := by
  intro whole
  induction tokens generalizing s with
  | nil => exact ⟨s, .nil s, whole⟩
  | cons token tokens ih =>
    cases whole with
    | cons front later =>
      obtain ⟨t, first, second⟩ := ih later
      exact ⟨t, .cons front first, second⟩

/-- Using up the first token leads on. -/
theorem advance (ahead : Ahead s (token :: tokens) t) :
    ∃ u, outcome advance s = .ok (token, u) ∧ Ahead s [token] u ∧ Ahead u tokens t := by
  cases ahead with
  | cons front later => exact ⟨_, outcome_advance front, .cons front (.nil _), later⟩

theorem current (ahead : Ahead s (token :: tokens) t) : s.current.token = token := by
  cases ahead with
  | cons front _ => simp [State.current, front]

theorem currentKind (ahead : Ahead s (token :: tokens) t) : s.currentKind = token.kind := by
  rw [← ahead.current]
  rfl

theorem nextKind (ahead : Ahead s [token] t) : s.nextKind = t.currentKind := by
  cases ahead with
  | cons front later =>
    cases later
    simp [State.nextKind, State.currentKind, State.current, front]

theorem length (ahead : Ahead s tokens t) : s.rest.length = tokens.length + t.rest.length := by
  induction ahead with
  | nil => simp
  | cons front _ ih =>
    simp only [front, List.length_cons] at ih ⊢
    omega

theorem length_single (ahead : Ahead s [token] t) : s.rest.length = t.rest.length + 1 := by
  rw [ahead.length, List.length_singleton, Nat.add_comm]

theorem eof (ahead : Ahead s tokens t) : t.eof = s.eof := by
  induction ahead with
  | nil => rfl
  | cons _ _ ih => exact ih

theorem ends (ahead : Ahead s tokens t) (ends : s.eof.kind = .eof) : t.eof.kind = .eof := by
  rw [ahead.eof]
  exact ends

theorem diagnostics (ahead : Ahead s tokens t) : t.diagnostics = s.diagnostics := by
  induction ahead with
  | nil => rfl
  | cons _ _ ih => exact ih

/-- The token used last is the last of those used up. -/
theorem previous (ahead : Ahead s tokens t) (last : tokens.getLast? = some token) :
    t.previous = some token := by
  obtain ⟨front, rfl⟩ := List.getLast?_eq_some_iff.mp last
  obtain ⟨u, -, last⟩ := ahead.append
  cases last with
  | cons _ later =>
    cases later with
    | nil => rfl

theorem of_rest (s : State) :
    ∃ t, Ahead s (s.rest.map (·.token)) t ∧ t.rest = [] := by
  generalize front : s.rest = placed
  induction placed generalizing s with
  | nil => exact ⟨s, .nil s, front⟩
  | cons one placed ih =>
    obtain ⟨t, later, done⟩ := ih { s with previous := some one.token, rest := placed } rfl
    exact ⟨t, .cons front later, done⟩

end Ahead

end MatrixScript.Grammar
