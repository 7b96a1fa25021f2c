import MatrixScript.Grammar.State

/-!
What a parser does to a state, whether it can fail or not.

`outcome` gives `Read` and `Parse` one meaning, so that a rule about sequences, choices and loops is
stated once for both. `Gives` says what holds of the result and of the state a parser leaves.
-/

set_option autoImplicit false

namespace MatrixScript.Grammar

/-- Parsers, seen as functions on states that may fail. -/
class Outcome (m : Type → Type) [Monad m] [MonadStateOf State m] where
  outcome : {α : Type} → m α → State → Except Failure (α × State)
  outcome_pure {α : Type} (a : α) (s : State) : outcome (pure a) s = .ok (a, s)
  outcome_bind {α β : Type} (f : m α) (g : α → m β) (s : State) :
    outcome (f >>= g) s = (outcome f s).bind fun result => outcome (g result.1) result.2
  outcome_map {α β : Type} (h : α → β) (f : m α) (s : State) :
    outcome (h <$> f) s = (outcome f s).map fun result => (h result.1, result.2)
  outcome_get (s : State) : outcome get s = .ok (s, s)

export Outcome (outcome outcome_pure outcome_bind outcome_map outcome_get)

instance : Outcome Read where
  outcome f s := .ok (f s)
  outcome_pure _ _ := rfl
  outcome_bind _ _ _ := rfl
  outcome_map _ _ _ := rfl
  outcome_get _ := rfl

instance : Outcome Parse where
  outcome f s := f s
  outcome_pure _ _ := rfl
  outcome_bind _ _ _ := rfl
  outcome_map h f s := by
    show (f s).bind _ = (f s).map _
    cases f s <;> rfl
  outcome_get _ := rfl

theorem outcome_lift {α : Type} (f : Read α) (s : State) :
    outcome (liftM f : Parse α) s = outcome f s := rfl

theorem outcome_read {α : Type} (f : Read α) (s : State) : outcome f s = .ok (f s) := rfl

theorem outcome_advance {s : State} {placed : PlacedToken} {rest : List PlacedToken}
    (ahead : s.rest = placed :: rest) :
    outcome advance s =
      .ok (placed.token, { s with previous := some placed.token, rest := rest }) := by
  simp only [outcome_read, advance, ahead]

theorem outcome_report (diagnostic : Diagnostic) (s : State) :
    outcome (report diagnostic) s =
      .ok ((), { s with diagnostics := s.diagnostics ++ [diagnostic] }) := rfl

theorem outcome_missing (kind : Kind) (s : State) :
    outcome (missing kind) s =
      .ok ((Token.missing kind).withDiagnostics [⟨.missingToken kind, Range.empty 0⟩],
        { s with diagnostics := s.diagnostics ++
          [⟨.missingToken kind, Range.empty s.current.range.start⟩] }) := rfl

theorem outcome_eatIf_of_true {test : State → Bool} {s : State} (passes : test s = true) :
    outcome (eatIf test) s = (outcome advance s).map fun result => (some result.1, result.2) := by
  rw [eatIf, outcome_bind, outcome_get, Except.bind]
  simp only [passes, if_true]
  rfl

theorem outcome_eatIf_of_false {test : State → Bool} {s : State} (fails : test s = false) :
    outcome (eatIf test) s = .ok (none, s) := by
  simp [eatIf, outcome_bind, outcome_get, Except.bind, fails, outcome_pure]

theorem outcome_expect_of_true {kind : Kind} {s : State} (here : s.isAt kind = true) :
    outcome (expect kind) s = outcome advance s := by
  rw [expect, eat, outcome_bind, outcome_eatIf_of_true here]
  rfl

theorem outcome_expect_of_false {kind : Kind} {s : State} (other : s.isAt kind = false) :
    outcome (expect kind) s = outcome (missing kind) s := by
  rw [expect, eat, outcome_bind, outcome_eatIf_of_false other]
  rfl

theorem outcome_expectWord_of_true {word : String} {s : State} (here : s.isAtWord word = true) :
    outcome (expectWord word) s = outcome advance s := by
  rw [expectWord, eatWord, outcome_bind, outcome_eatIf_of_true here]
  rfl

theorem outcome_expectWord_of_false {word : String} {s : State}
    (other : s.isAtWord word = false) :
    outcome (expectWord word) s = outcome (missing .identifier) s := by
  rw [expectWord, eatWord, outcome_bind, outcome_eatIf_of_false other]
  rfl

section

variable {m : Type → Type} [Monad m] [MonadStateOf State m] [Outcome m] {α β : Type}

/-- A parser whose first part is known. -/
theorem outcome_bind_of_ok {f : m α} {g : α → m β} {a : α} {s t : State}
    (first : outcome f s = .ok (a, t)) : outcome (f >>= g) s = outcome (g a) t := by
  rw [outcome_bind, first]
  rfl

theorem outcome_get_bind (g : State → m β) (s : State) :
    outcome (MonadState.get >>= g) s = outcome (g s) s :=
  outcome_bind_of_ok (outcome_get s)

theorem outcome_map_of_ok {f : m α} {h : α → β} {a : α} {s t : State}
    (first : outcome f s = .ok (a, t)) : outcome (h <$> f) s = .ok (h a, t) := by
  rw [outcome_map, first]
  rfl

/-- A loop after its first round. -/
theorem outcome_iterate_succ {step : α → m (Option α)} {value : α} {further : Option α}
    {s t : State} (round : outcome (step value) s = .ok (further, t)) (count : Nat) :
    outcome (iterate step (count + 1) value) s =
      outcome (further.elim (pure value) (iterate step count)) t := by
  rw [iterate, outcome_bind, round]
  cases further <;> rfl

/-- If a parser yields something, the result and the state it leaves satisfy a condition. -/
def Gives (f : m α) (s : State) (post : α → State → Prop) : Prop :=
  ∀ a t, outcome f s = .ok (a, t) → post a t

namespace Gives

variable {s : State} {mid : α → State → Prop} {post : β → State → Prop}

theorem pure {a : α} (holds : mid a s) : Gives (Pure.pure a : m α) s mid := by
  intro b t yields
  rw [outcome_pure, Except.ok.injEq, Prod.mk.injEq] at yields
  rw [← yields.1, ← yields.2]
  exact holds

/-- One parser and then another that looks at the result. -/
theorem andThen {f : m α} {g : α → m β} (first : Gives f s mid)
    (next : ∀ a t, mid a t → Gives (g a) t post) : Gives (f >>= g) s post := by
  intro b u yields
  rw [outcome_bind] at yields
  cases found : outcome f s with
  | error failure => simp [found, Except.bind] at yields
  | ok result =>
    rw [found] at yields
    exact next result.1 result.2 (first result.1 result.2 found) b u yields

theorem get {g : State → m β} (next : Gives (g s) s post) :
    Gives (MonadState.get >>= g) s post := by
  have here : Gives (MonadState.get : m State) s fun a t => a = s ∧ t = s := by
    intro a t yields
    rw [outcome_get, Except.ok.injEq, Prod.mk.injEq] at yields
    exact ⟨yields.1.symm, yields.2.symm⟩
  refine here.andThen ?_
  rintro a t ⟨rfl, rfl⟩
  exact next

theorem map {f : m α} {h : α → β} (first : Gives f s fun a t => post (h a) t) :
    Gives (h <$> f) s post := by
  intro b u yields
  rw [outcome_map] at yields
  cases found : outcome f s with
  | error failure => simp [found, Except.map] at yields
  | ok result =>
    simp only [found, Except.map, Except.ok.injEq, Prod.mk.injEq] at yields
    rw [← yields.1, ← yields.2]
    exact first result.1 result.2 found

theorem mono {f : m α} {post : α → State → Prop} (first : Gives f s mid)
    (weaker : ∀ a t, mid a t → post a t) : Gives f s post :=
  fun a t yields => weaker a t (first a t yields)

theorem and {f : m α} {post : α → State → Prop} (first : Gives f s mid) (second : Gives f s post) :
    Gives f s fun a t => mid a t ∧ post a t :=
  fun a t yields => ⟨first a t yields, second a t yields⟩

theorem ite {c : Prop} [Decidable c] {f g : m α} (yes : c → Gives f s mid)
    (no : ¬c → Gives g s mid) : Gives (if c then f else g) s mid := by
  split
  · exact yes ‹c›
  · exact no ‹¬c›

theorem iteThen {c : Prop} [Decidable c] {f g : m α} {join : α → m β}
    (yes : c → Gives f s mid) (no : ¬c → Gives g s mid)
    (next : ∀ a t, mid a t → Gives (join a) t post) :
    Gives (if c then f >>= join else g >>= join) s post :=
  ite (fun holds => (yes holds).andThen next) fun fails => (no fails).andThen next

theorem lift {f : Read α} (first : Gives f s mid) : Gives (liftM f : Parse α) s mid := first

theorem eatIf {test : State → Bool} {post : Option Token → State → Prop}
    (yes : test s = true → Gives advance s fun token t => post (some token) t)
    (no : test s = false → post none s) : Gives (Grammar.eatIf test) s post := by
  unfold Grammar.eatIf
  refine get (ite (fun passes => ?_) fun fails => pure (no (Bool.eq_false_iff.mpr fails)))
  exact (yes passes).andThen fun token t holds => pure holds

/-- A failure yields nothing. -/
theorem failing (failure : Failure) : Gives (throw failure : Parse α) s mid :=
  fun _ _ yields => nomatch yields

theorem iterate {step : α → m (Option α)} {invariant : α → State → Prop}
    (round : ∀ value t, invariant value t →
      Gives (step value) t fun further u => invariant (further.getD value) u)
    (count : Nat) {value : α} (holds : invariant value s) :
    Gives (Grammar.iterate step count value) s invariant := by
  induction count generalizing value s with
  | zero => exact pure holds
  | succ count ih =>
    refine (round value s holds).andThen fun further t kept => ?_
    cases further with
    | none => exact pure kept
    | some further => exact ih kept

theorem repeated {step : α → m (Option α)} {invariant : α → State → Prop} {value : α}
    (holds : invariant value s)
    (round : ∀ value t, invariant value t →
      Gives (step value) t fun further u => invariant (further.getD value) u) :
    Gives (MonadState.get >>= fun state : State => Grammar.iterate step state.rest.length value) s
      invariant :=
  get (iterate round _ holds)

end Gives

end

end MatrixScript.Grammar
