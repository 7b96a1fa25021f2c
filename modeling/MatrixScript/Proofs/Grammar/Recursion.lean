import Mathlib.Logic.Function.Iterate
import MatrixScript.Proofs.Grammar.Coinciding

/-!
The grammar recurs no more often than there are tokens.

Inner expressions, blocks and the rounds of a loop are all read by a rule that uses up a token
before it comes to itself (`Guarded`). Unrolled more often than there are tokens ahead, such a rule
does not come to its bottom, whatever stands there (`Guarded.unrolled`). So the bounds in the
grammar are never met, and what is read with them satisfies the recursion that has none
(`Guarded.fixed`).
-/

set_option autoImplicit false

namespace MatrixScript.Grammar

section

variable {m : Type → Type} [Monad m] [MonadStateOf State m] [Outcome m] {α R ι : Type}

/-- A rule that makes parsers of some sorts out of those inside, and uses up a token before it comes
to one of them. -/
structure Guarded (view : R → ι → m α) (rule : R → R) : Prop where
  forward (inner : R) : (∀ i, Forward (view inner i)) → ∀ i, Forward (view (rule inner) i)
  coincide (count : Nat) (inner inner' : R) : (∀ i, Forward (view inner i)) →
    (∀ i, Coincide count (view inner i) (view inner' i)) →
    ∀ i, Coincide (count + 1) (view (rule inner) i) (view (rule inner') i)

namespace Guarded

variable {view : R → ι → m α} {rule : R → R} {bottom : R} {s : State}

private theorem forward_iterate (guarded : Guarded view rule)
    (forward : ∀ i, Forward (view bottom i))
    (depth : Nat) : ∀ i, Forward (view (rule^[depth] bottom) i) := by
  induction depth with
  | zero => exact forward
  | succ depth ih =>
    rw [Function.iterate_succ_apply']
    exact guarded.forward _ ih

private theorem iterate (guarded : Guarded view rule) (forward : ∀ i, Forward (view bottom i))
    (bottom' : R) (depth : Nat) :
    ∀ i, Coincide depth (view (rule^[depth] bottom) i) (view (rule^[depth] bottom') i) := by
  induction depth with
  | zero => exact fun i => ⟨fun s ends short => absurd short (Nat.not_lt_zero _)⟩
  | succ depth ih =>
    rw [Function.iterate_succ_apply', Function.iterate_succ_apply']
    exact guarded.coincide depth _ _ (guarded.forward_iterate forward depth) ih

/-- Unrolled more often than there are tokens ahead, a rule does the same. -/
theorem unrolled (guarded : Guarded view rule) (forward : ∀ i, Forward (view bottom i))
    (bottom' : R) (ends : s.eof.kind = .eof) {depth : Nat} (enough : s.rest.length < depth)
    (i : ι) : outcome (view (rule^[s.rest.length + 1] bottom) i) s =
      outcome (view (rule^[depth] bottom') i) s := by
  obtain ⟨more, rfl⟩ := Nat.exists_eq_add_of_lt enough
  have deeper : rule^[s.rest.length + more + 1] bottom' =
      rule^[s.rest.length + 1] (rule^[more] bottom') := by
    rw [Nat.add_right_comm, Function.iterate_add_apply]
  rw [deeper]
  exact (guarded.iterate forward _ (s.rest.length + 1) i).same s ends (Nat.lt_succ_self _)

/-- What a rule reads that is unrolled as often as need be, it reads without bounds. -/
theorem fixed (guarded : Guarded view rule) (bottom : R) (forward : ∀ i, Forward (view bottom i))
    {whole : R}
    (reads : ∀ s i, s.eof.kind = .eof →
      outcome (view whole i) s = outcome (view (rule^[s.rest.length + 1] bottom) i) s)
    (ends : s.eof.kind = .eof) (i : ι) :
    outcome (view whole i) s = outcome (view (rule whole) i) s := by
  have inner (i : ι) : Coincide s.rest.length (view (rule^[s.rest.length] bottom) i)
      (view whole i) := by
    constructor
    intro t ends short
    rw [reads t i ends]
    exact (guarded.unrolled forward bottom ends short i).symm
  rw [reads s i ends, Function.iterate_succ_apply']
  exact (guarded.coincide _ _ _ (guarded.forward_iterate forward _) inner i).same s ends
    (Nat.lt_succ_self _)

end Guarded

end

/-! Inner expressions. -/

section

variable {s : State}

/-- Inner expressions, with as many levels as there are tokens ahead. -/
def nested : Inner := fun inside floor => do
  expressionWithin ((← get).rest.length + 1) inside floor

instance (inside : Bool) (floor : Precedence) : Forward (nested inside floor) := by
  unfold nested
  infer_instance

theorem expression_eq (inside : Bool) : expression inside = nested inside .expression := rfl

private theorem climb_guarded :
    Guarded (fun (inner : Inner) (at_ : Bool × Precedence) => inner at_.1 at_.2) climb where
  forward inner forward _ :=
    have (inside : Bool) (floor : Precedence) : Forward (inner inside floor) :=
      forward (inside, floor)
    inferInstance
  coincide count inner inner' forward alike _ :=
    have (inside : Bool) (floor : Precedence) : Forward (inner inside floor) :=
      forward (inside, floor)
    have (inside : Bool) (floor : Precedence) :
        Coincide count (inner inside floor) (inner' inside floor) := alike (inside, floor)
    inferInstance

private theorem expressionWithin_eq (depth : Nat) :
    expressionWithin depth = climb^[depth] (expressionWithin 0) := by
  induction depth with
  | zero => rfl
  | succ depth ih => rw [Function.iterate_succ_apply', ← ih, expressionWithin]

private theorem outcome_nested (s : State) (inside : Bool) (floor : Precedence) :
    outcome (nested inside floor) s =
      outcome (climb^[s.rest.length + 1] (expressionWithin 0) inside floor) s := by
  rw [nested, outcome_get_bind, expressionWithin_eq]

theorem nested_unrolled (ends : s.eof.kind = .eof) {depth : Nat} (enough : s.rest.length < depth)
    (bottom : Inner) (inside : Bool) (floor : Precedence) :
    outcome (climb^[depth] bottom inside floor) s = outcome (nested inside floor) s := by
  rw [outcome_nested]
  exact (climb_guarded.unrolled (fun _ => inferInstance) bottom ends enough (inside, floor)).symm

theorem nested_fixed (ends : s.eof.kind = .eof) (inside : Bool) (floor : Precedence) :
    outcome (nested inside floor) s = outcome (climb nested inside floor) s :=
  climb_guarded.fixed (expressionWithin 0) (fun _ => inferInstance)
    (fun s i _ => outcome_nested s i.1 i.2) ends (inside, floor)

instance (depth : Nat) (inside : Bool) (floor : Precedence) :
    Coincide depth (expressionWithin depth inside floor) (nested inside floor) where
  same s ends short := by
    rw [expressionWithin_eq]
    exact nested_unrolled ends short _ inside floor

theorem enumerationValue_eq (ends : s.eof.kind = .eof) :
    outcome enumerationValue s = outcome
      (do return .ofChildren .enumerationItemValue (← arguments nested .closeParenthesis)) s := by
  rw [enumerationValue, outcome_get_bind]
  dsimp only
  exact Coincide.outcome_eq (s.rest.length + 1) _ _ ends (Nat.lt_succ_self _)

end

/-! Blocks. -/

section

variable {s : State}

/-- The statements of a block, with blocks inside it nested as deep as there are tokens. -/
def block (inside : Bool) : Parse Element := do
  blockWithin inside ((← get).rest.length + 1)

instance (inside : Bool) : Forward (block inside) where
  moves s := Gives.get ((Forward.moves (f := blockWithin inside _) s).mono fun _ _ moves => moves)

private theorem statementList_guarded (inside : Bool) :
    Guarded (fun (block : Parse Element) (_ : Unit) => block)
      fun block => statementList block inside .block where
  forward block forward _ :=
    have : Forward block := forward ()
    inferInstance
  coincide count block block' forward alike _ :=
    have : Forward block := forward ()
    have : Coincide count block block' := alike ()
    inferInstance

private theorem blockWithin_eq (inside : Bool) (depth : Nat) : blockWithin inside depth =
    (fun block => statementList block inside .block)^[depth] (blockWithin inside 0) := by
  induction depth with
  | zero => rfl
  | succ depth ih => rw [Function.iterate_succ_apply', ← ih, blockWithin]

private theorem outcome_block (s : State) (inside : Bool) : outcome (block inside) s = outcome
    ((fun block => statementList block inside .block)^[s.rest.length + 1]
      (blockWithin inside 0)) s := by
  rw [block, outcome_get_bind, blockWithin_eq]

theorem block_unrolled (ends : s.eof.kind = .eof) {depth : Nat} (enough : s.rest.length < depth)
    (bottom : Parse Element) (inside : Bool) :
    outcome ((fun block => statementList block inside .block)^[depth] bottom) s =
      outcome (block inside) s := by
  rw [outcome_block]
  exact ((statementList_guarded inside).unrolled (fun _ => inferInstance) bottom ends enough
    ()).symm

theorem block_fixed (ends : s.eof.kind = .eof) (inside : Bool) :
    outcome (block inside) s = outcome (statementList (block inside) inside .block) s :=
  (statementList_guarded inside).fixed (blockWithin inside 0) (fun _ => inferInstance)
    (fun s _ _ => outcome_block s inside) ends ()

instance (inside : Bool) (depth : Nat) :
    Coincide depth (blockWithin inside depth) (block inside) where
  same s ends short := by
    rw [blockWithin_eq]
    exact block_unrolled ends short _ inside

theorem statements_eq (ends : s.eof.kind = .eof) {depth : Nat} (enough : s.rest.length ≤ depth)
    (inside : Bool) (scope : Scope) :
    outcome (repeatParse (statementStep (blockWithin inside depth) inside scope) []) s =
      outcome (repeatParse (statementStep (block inside) inside scope) []) s :=
  Coincide.outcome_eq (depth + 1) _ _ ends (Nat.lt_succ_of_le enough)

theorem script_fixed (ends : s.eof.kind = .eof) (inside : Bool) :
    outcome (script inside) s = outcome (do
      let statements ← statementList (block inside) inside .script
      let closing ← expect .eof
      return .ofChildren .file [statements, .leaf closing]) s := by
  rw [script, outcome_get_bind]
  exact Coincide.outcome_eq (s.rest.length + 1 + 1) _ _ ends (by omega)

end

/-! Loops. -/

section

variable {m : Type → Type} [Monad m] [MonadStateOf State m] [Outcome m] {α : Type}
  {step : α → m (Option α)} {s : State}

def round (step : α → m (Option α)) (again : α → m α) : α → m α := fun value => do
  match ← step value with
  | some further => again further
  | none => pure value

omit [MonadStateOf State m] [Outcome m] in
private theorem iterate_eq (step : α → m (Option α)) (count : Nat) :
    iterate step count = (round step)^[count] pure := by
  induction count with
  | zero => rfl
  | succ count ih =>
    rw [Function.iterate_succ_apply', ← ih]
    rfl

private theorem round_guarded (steady : Steady step) [∀ value, Forward (step value)] :
    Guarded (fun (again : α → m α) value => again value) (round step) where
  forward again forward value :=
    Forward.bind fun further => by cases further <;> infer_instance
  coincide count again again' forward alike value := by
    constructor
    intro s ends short
    rw [round, round, outcome_bind, outcome_bind]
    cases found : outcome (step value) s with
    | error failure => rfl
    | ok result =>
      obtain ⟨further, t⟩ := result
      cases further with
      | none => rfl
      | some further =>
        have moves : s.Moves t := Forward.moves s _ t found
        have fewer := steady.uses value s ends _ t found rfl
        have below : t.rest.length < count := by omega
        exact (alike further).same t (moves.ends ends) below

theorem round_unrolled (steady : Steady step) [∀ value, Forward (step value)]
    (ends : s.eof.kind = .eof) {count : Nat} (enough : s.rest.length < count) (again : α → m α)
    (value : α) : outcome ((round step)^[count] again value) s =
      outcome (MonadState.get >>= fun state : State => iterate step state.rest.length value) s := by
  rw [outcome_get_bind, iterate_enough steady ends (Nat.le_refl _) (Nat.le_succ _) value,
    iterate_eq]
  exact ((round_guarded steady).unrolled (fun _ => inferInstance) again ends enough value).symm

end

end MatrixScript.Grammar
