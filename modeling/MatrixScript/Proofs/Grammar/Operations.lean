import MatrixScript.Proofs.Grammar.Building

/-!
What the rules for operations build.

Where a heritable condition passes from the operands of an operation to the operation too, every
expression has it.
-/

set_option autoImplicit false

namespace MatrixScript

/-- A heritable condition that operations inherit as well. -/
class Inheritable (good : Element → Prop) : Prop extends Heritable good where
  operation (kind : Kind) (slots : List (Option Element)) (isOperation : kind.isOperation = true)
    (fits : (Element.node kind slots []).fits = true)
    (below : ∀ slot ∈ slots, ∀ element, slot = some element → good element) :
    good (.node kind slots [])

namespace Grammar

def IsGoodExpression (good : Element → Prop) (element : Element) : Prop :=
  good element ∧ element.isA .expression = true

private theorem IsTerm.isGood {good : Element → Prop} {element : Element}
    (term : IsTerm good element) :
    IsGoodExpression good element := ⟨term.good, term.expression⟩

section

variable (good : Element → Prop) [Inheritable good]

variable {good} in
private theorem operation_isGood {kind : Kind} {layout : List Slot} {slots : List (Option Element)}
    (isOperation : kind.isOperation = true) (known : kind.layout? = some layout)
    (fill : AllFill good layout slots) : IsGoodExpression good (.node kind slots []) := by
  have other : (kind != .switchCase) = true := by
    rw [bne_iff_ne]
    rintro rfl
    cases isOperation
  constructor
  · exact Inheritable.operation kind slots isOperation
      (Element.fits_of_layout known (by simp [other]) fill.allHold []) fill.below
  · cases kind <;> first | rfl | cases isOperation

private theorem emptyExpression_isGood : IsGoodExpression good emptyExpression := by
  have term : IsTerm good emptyExpression := isTerm_node rfl rfl rfl rfl trivial
  exact term.isGood

variable {depth : Nat} {inner : Inner} [∀ inside floor, Forward (inner inside floor)]
  [∀ inside floor, Encloses (inner inside floor)]
  (inner_yields : ∀ inside floor, Yields depth (inner inside floor) (IsGoodExpression good))

include inner_yields

omit [∀ inside floor, Forward (inner inside floor)]
  [∀ inside floor, Encloses (inner inside floor)] in
private theorem operand_yields (inside : Bool) (floor : Precedence) :
    Yields depth (operand inner inside floor) (IsGoodExpression good) := by
  apply Yields.get
  intro s
  apply Yields.ite
  · exact (missingOperand_yields _).mono fun _ term => term.isGood
  · exact inner_yields inside floor

omit [∀ inside floor, Forward (inner inside floor)]
  [∀ inside floor, Encloses (inner inside floor)] in
private theorem rangeEnd_yields (inside : Bool) :
    Yields depth (rangeEnd inner inside) (IsGoodExpression good) := by
  apply Yields.get
  intro s
  apply Yields.ite
  · exact Yields.pure (emptyExpression_isGood good)
  · exact inner_yields inside .colon

omit [∀ inside floor, Encloses (inner inside floor)] in
private theorem prefixed_yields (inside : Bool) (floor : Precedence) :
    YieldsAt depth (prefixed inner inside floor) (IsGoodExpression good) := by
  apply Yields.afterToken good
  intro sign signs
  apply Yields.get
  intro s
  apply Yields.iteThen (IsGoodExpression good)
  · intro _
    exact Yields.pure (emptyExpression_isGood good)
  · intro _
    exact operand_yields good inner_yields inside _
  · intro body read
    apply Yields.pure
    exact operation_isGood rfl rfl ⟨.token signs, .needed read, trivial⟩

private theorem signed_yields (inside : Bool) (floor : Precedence) :
    Yields (depth + 1) (signed inner inside floor) (IsGoodExpression good) := by
  have bareRange : YieldsAt depth (advance >>= fun colon => rangeEnd inner inside >>= fun stop =>
      pure (Element.ofChildren .binaryOperationExpression [emptyExpression, .leaf colon, stop]))
      (IsGoodExpression good) := by
    apply Yields.afterToken good
    intro colon reads
    apply (rangeEnd_yields good inner_yields inside).andThen
    intro stop read
    apply Yields.pure
    exact operation_isGood rfl rfl
      ⟨.needed (emptyExpression_isGood good), .token reads, .needed read, trivial⟩
  constructor
  intro s lexed short
  have fewer : s.rest.length ≤ depth := Nat.le_of_lt_succ short
  have ahead {kind : Kind} (here : s.currentKind = kind) (other : kind ≠ .eof) : s.rest ≠ [] :=
    State.more_of_currentKind lexed.ends here other
  have sign := prefixed_yields good inner_yields inside floor
  refine Gives.get ?_
  split
  case h_1 here => exact sign.gives s lexed (ahead here (by decide)) fewer
  case h_2 here => exact sign.gives s lexed (ahead here (by decide)) fewer
  case h_3 here => exact sign.gives s lexed (ahead here (by decide)) fewer
  case h_4 here => exact bareRange.gives s lexed (ahead here (by decide)) fewer
  case h_5 =>
    have term := suffixed_yields good (fun inside => inner_yields inside .expression) inside
    exact (term.gives s lexed short).mono fun _ _ term => term.isGood

omit [∀ inside floor, Encloses (inner inside floor)] in
private theorem binaryStep_yields (inside : Bool) (floor : Precedence) {left : Element}
    (before : IsGoodExpression good left) :
    Yields (depth + 1) (binaryStep inner inside floor left) fun further =>
      IsGoodExpression good (further.getD left) := by
  constructor
  intro s lexed short
  have stay : Gives (pure none : Read (Option Element)) s fun further _ =>
      IsGoodExpression good (further.getD left) := Gives.pure before
  refine Gives.get (Gives.ite (fun _ => stay) fun _ => ?_)
  split
  case h_1 => exact stay
  case h_2 precedence known =>
    refine Gives.ite (fun _ => stay) fun _ => ?_
    have more : s.rest ≠ [] := by
      intro done
      rw [State.currentKind_of_done lexed.ends done] at known
      cases known
    refine YieldsAt.gives ?_ s lexed more (Nat.le_of_lt_succ short)
    apply Yields.afterToken good
    intro operator reads
    apply Yields.iteThen (IsGoodExpression good)
    · intro _
      exact rangeEnd_yields good inner_yields inside
    · intro _
      exact operand_yields good inner_yields inside precedence
    · intro right read
      apply Yields.pure
      show IsGoodExpression good (.node (if _ then _ else _) _ [])
      split
      · exact operation_isGood rfl rfl ⟨.needed before, .token reads, .needed read, trivial⟩
      · exact operation_isGood rfl rfl ⟨.needed before, .token reads, .needed read, trivial⟩

private theorem climb_yields (inside : Bool) (floor : Precedence) :
    Yields (depth + 1) (climb inner inside floor) (IsGoodExpression good) := by
  apply (signed_yields good inner_yields inside floor).andThen
  intro left before
  exact Yields.repeated before fun left before =>
    binaryStep_yields good inner_yields inside floor before

end

theorem expressionWithin_yields (good : Element → Prop) [Inheritable good] (depth : Nat)
    (inside : Bool) (floor : Precedence) :
    Yields depth (expressionWithin depth inside floor) (IsGoodExpression good) := by
  induction depth generalizing inside floor with
  | zero => exact (missingOperand_yields _).mono fun _ term => term.isGood
  | succ depth ih => exact climb_yields good ih inside floor

end Grammar

end MatrixScript
