import MatrixScript.Proofs.Grammar.Progress

/-!
Operators between what they join.

Operations, calls, transposes, members and base classes are made of an operator and of what stands
around it; a bracket, a dot and an `@` are operators too. `State.Links` says what a parser has
looked at when it makes such a node: the token in front of the operator does not end its line, and
behind an operator that ends its line an operand is left out. A name behind a dot or an `@` is the
next token of the text if that can be one, whether a line ends in between or not.
-/

set_option autoImplicit false

namespace MatrixScript

namespace Kind

/-- Operations with an operator between two operands. -/
def isInfix : Kind → Bool
  | .assignmentExpression | .binaryOperationExpression => true
  | _ => false

def isSuffix : Kind → Bool
  | .functionCallExpression | .cellArrayElementAccessExpression
  | .unaryPostfixOperationExpression => true
  | _ => false

/-- Suffixes that name something behind a dot or an `@`. -/
def isReference : Kind → Bool
  | .memberAccessExpression | .indirectMemberAccessExpression
  | .baseClassInvokationExpression => true
  | _ => false

/-- Nodes with a left side and an operator behind it. -/
def isChain (kind : Kind) : Bool := kind.isInfix || kind.isSuffix || kind.isReference

/-- The slot of the operator in operations with an operand behind it. -/
def operator? : Kind → Option Nat
  | .assignmentExpression | .binaryOperationExpression => some 1
  | .unaryPrefixOperationExpression => some 0
  | _ => none

def isPlain (kind : Kind) : Bool :=
  kind != .error && kind != .unaryPrefixOperationExpression && !kind.isChain

/-- Whether a suffix that names something takes a token of some kind. -/
def takes (kind next : Kind) : Bool :=
  next == .identifier || (next == .openParenthesis && kind != .baseClassInvokationExpression)

theorem ne_error_of_isPlain {kind : Kind} (plain : kind.isPlain = true) : kind ≠ .error := by
  rintro rfl
  cases plain

private theorem facts_of_isInfix {kind : Kind} (isInfix : kind.isInfix = true) :
    kind.operator? = some 1 ∧ kind.isReference = false := by
  revert isInfix
  cases kind <;> decide

private theorem facts_of_isSuffix {kind : Kind} (isSuffix : kind.isSuffix = true) :
    kind.operator? = none ∧ kind.isReference = false := by
  revert isSuffix
  cases kind <;> decide

private theorem operator?_of_isReference {kind : Kind} (isReference : kind.isReference = true) :
    kind.operator? = none := by
  revert isReference
  cases kind <;> decide

theorem isPlain_of_isChain {kind : Kind} (chain : kind.isChain = true) :
    kind ≠ .error ∧ kind.isPlain = false := by
  refine ⟨?_, by simp [isPlain, chain]⟩
  rintro rfl
  cases chain

theorem isPlain_of_operator? {kind : Kind} {index : Nat} (operated : kind.operator? = some index) :
    kind ≠ .error ∧ kind.isPlain = false := by
  revert operated
  cases kind <;> simp [operator?, isPlain, isChain, isInfix]

end Kind

theorem Token.trailing_of_endsLine {token : Token} (ends : token.endsLine = true) :
    (!token.trailing.isEmpty) = true := by
  cases trailing : token.trailing with
  | nil => simp [endsLine, trailing] at ends
  | cons piece pieces => rfl

namespace Grammar

def lackingToken (kind : Kind) : Token :=
  (Token.missing kind).withDiagnostics [⟨.missingToken kind, Range.empty 0⟩]

@[simp]
theorem lackingToken_kind (kind : Kind) : (lackingToken kind).kind = kind := rfl

@[simp]
theorem lackingToken_isMissing (kind : Kind) : (lackingToken kind).isMissing = true := rfl

@[simp]
theorem lackingToken_width (kind : Kind) : (lackingToken kind).width = 0 := rfl

def lackingOperand : Element :=
  .ofChildren .identifierNameExpression [.leaf (lackingToken .identifier)]

private theorem outcome_missingOperand (s : State) :
    outcome missingOperand s = .ok (lackingOperand, { s with diagnostics := s.diagnostics ++
      [⟨.missingToken .identifier, Range.empty s.current.range.start⟩] }) := rfl

def LeavesOut (operator : Token) (operand : Element) : Prop :=
  operator.endsLine = true → operand = lackingOperand ∨
    operand = emptyExpression ∧ (operator.kind = .colon ∨ operator.kind = .tilde)

/-- What stands behind a dot or an `@` that ends its line: a name that is missing, or first of all
the next token of the text, if it is one that a suffix of this kind takes. -/
def Names (kind : Kind) (operator : Token) (rest : List PlacedToken)
    (right : List (Option Element)) : Prop :=
  operator.endsLine = true →
    (Element.slotTokens right = [lackingToken .identifier] ∧
      ∀ next ∈ rest.head?, kind.takes next.kind = false) ∨
    ∃ next later tokens, rest = next :: later ∧ kind.takes next.kind = true ∧
      Element.slotTokens right = next.token :: tokens

/-- How a parser at `s` makes a node of an operator, what it holds already on its left, and what
follows on its right; `rest` are the tokens behind the operator. -/
inductive State.Links (s : State) (operator : Token) (rest : List PlacedToken) :
    Kind → List (Option Element) → List (Option Element) → Prop
  | operation {kind : Kind} {left right : Element} (isInfix : kind.isInfix = true)
      (sameLine : s.previousEndsLine = false) (leavesOut : LeavesOut operator right) :
      Links s operator rest kind [some left] [some right]
  | range {right : Element} (leavesOut : LeavesOut operator right) :
      Links s operator rest .binaryOperationExpression [some emptyExpression] [some right]
  | sign {right : Element} (leavesOut : LeavesOut operator right) :
      Links s operator rest .unaryPrefixOperationExpression [] [some right]
  | suffix {kind : Kind} {left : Element} {right : List (Option Element)}
      (isSuffix : kind.isSuffix = true) (sameLine : s.previousEndsLine = false) :
      Links s operator rest kind [some left] right
  | reference {kind : Kind} {left : Element} {right : List (Option Element)}
      (isReference : kind.isReference = true) (sameLine : s.previousEndsLine = false)
      (names : Names kind operator rest right) :
      Links s operator rest kind [some left] right

theorem State.Links.ne_error {s : State} {operator : Token} {rest : List PlacedToken} {kind : Kind}
    {left right : List (Option Element)} (links : s.Links operator rest kind left right) :
    kind ≠ .error := by
  cases links with
  | operation isInfix =>
    rintro rfl
    cases isInfix
  | range => decide
  | sign => decide
  | suffix isSuffix =>
    rintro rfl
    cases isSuffix
  | reference isReference =>
    rintro rfl
    cases isReference

namespace State.Links

variable {s : State} {operator : Token} {rest : List PlacedToken} {kind : Kind}
  {left right : List (Option Element)}

/-- A chain goes on in the same line, but for a range without a left side. -/
theorem of_isChain (links : s.Links operator rest kind left right) (chain : kind.isChain = true) :
    left.length = 1 ∧ (s.previousEndsLine = false ∨
      kind = .binaryOperationExpression ∧ left = [some emptyExpression]) := by
  cases links with
  | operation _ sameLine => exact ⟨rfl, Or.inl sameLine⟩
  | range => exact ⟨rfl, Or.inr ⟨rfl, rfl⟩⟩
  | sign => cases chain
  | suffix _ sameLine => exact ⟨rfl, Or.inl sameLine⟩
  | reference _ sameLine => exact ⟨rfl, Or.inl sameLine⟩

/-- An operand stands behind the operator, or is left out. -/
theorem of_operator? (links : s.Links operator rest kind left right) {index : Nat}
    (operated : kind.operator? = some index) :
    left.length = index ∧ ∃ operand, right = [some operand] ∧ LeavesOut operator operand := by
  cases links with
  | operation isInfix _ leavesOut =>
    obtain ⟨second, -⟩ := Kind.facts_of_isInfix isInfix
    exact ⟨Option.some.inj (second.symm.trans operated), _, rfl, leavesOut⟩
  | range leavesOut => exact ⟨Option.some.inj operated, _, rfl, leavesOut⟩
  | sign leavesOut => exact ⟨Option.some.inj operated, _, rfl, leavesOut⟩
  | suffix isSuffix => cases (Kind.facts_of_isSuffix isSuffix).1.symm.trans operated
  | reference isReference => cases (Kind.operator?_of_isReference isReference).symm.trans operated

/-- Behind a dot or an `@` a name stands, or is missing. -/
theorem of_isReference (links : s.Links operator rest kind left right)
    (reference : kind.isReference = true) :
    left.length = 1 ∧ Names kind operator rest right := by
  cases links with
  | operation isInfix => cases (Kind.facts_of_isInfix isInfix).2.symm.trans reference
  | range => cases reference
  | sign => cases reference
  | suffix isSuffix => cases (Kind.facts_of_isSuffix isSuffix).2.symm.trans reference
  | reference _ _ names => exact ⟨rfl, names⟩

end State.Links

/-! What the rules leave out. -/

section

variable {inner : Inner} {inside : Bool} {s : State} {operator : Token}

private theorem State.previousEndsLine_of_previous (last : s.previous = some operator) :
    s.previousEndsLine = operator.endsLine := by
  rw [previousEndsLine, last, Option.any_some]

theorem State.facts_of_isAtDottedName {dot name : PlacedToken} {rest : List PlacedToken}
    (here : s.isAtDottedName = true) (ahead : s.rest = dot :: name :: rest) :
    s.previousEndsLine = false ∧ name.kind = .identifier := by
  simp only [isAtDottedName, Bool.and_eq_true, beq_iff_eq, Bool.not_eq_true'] at here
  obtain ⟨⟨-, named⟩, touches⟩ := here
  refine ⟨?_, by simpa [nextKind, ahead] using named⟩
  rw [previousHasTrailing] at touches
  rw [previousEndsLine]
  cases last : s.previous with
  | none => rfl
  | some token =>
    rw [last, Option.any_some] at touches
    rw [Option.any_some, Bool.eq_false_iff]
    intro ends
    rw [Token.trailing_of_endsLine ends] at touches
    cases touches

theorem operand_leavesOut (last : s.previous = some operator) (floor : Precedence) :
    Gives (operand inner inside floor) s fun right _ => LeavesOut operator right := by
  refine Gives.get (Gives.ite (fun _ => ?_) fun goesOn => ?_)
  · intro right t yields
    rw [outcome_missingOperand, Except.ok.injEq, Prod.mk.injEq] at yields
    exact fun _ => Or.inl yields.1.symm
  · intro right t _ ends
    rw [State.previousEndsLine_of_previous last, ends] at goesOn
    exact absurd rfl goesOn

theorem rangeEnd_leavesOut (last : s.previous = some operator) (colon : operator.kind = .colon) :
    Gives (rangeEnd inner inside) s fun right _ => LeavesOut operator right := by
  refine Gives.get (Gives.ite (fun _ => ?_) fun goesOn => ?_)
  · exact Gives.pure fun _ => Or.inr ⟨rfl, Or.inl colon⟩
  · intro right t _ ends
    rw [State.previousEndsLine_of_previous last, ends, Bool.true_or] at goesOn
    exact absurd rfl goesOn

theorem State.currentKind_of_ahead {placed : PlacedToken} {rest : List PlacedToken}
    (ahead : s.rest = placed :: rest) : s.currentKind = placed.kind := by
  rw [currentKind, current, ahead, List.headD_cons]

theorem expect_gives (ends : s.eof.kind = .eof) {kind : Kind} (other : kind ≠ .eof) :
    Gives (expect kind) s fun token t =>
      (∃ next later, s.rest = next :: later ∧ next.kind = kind ∧ token = next.token) ∨
        (s.isAt kind = false ∧ token = lackingToken kind ∧ t.previous = s.previous) := by
  intro token t yields
  cases here : s.isAt kind with
  | true =>
    obtain ⟨next, later, ahead⟩ :=
      List.exists_cons_of_ne_nil (State.more_of_isAt ends here other)
    rw [outcome_expect_of_true here, outcome_advance ahead, Except.ok.injEq, Prod.mk.injEq] at yields
    have kind : next.kind = kind := by
      simpa [State.isAt, State.currentKind_of_ahead ahead] using here
    exact Or.inl ⟨next, later, ahead, kind, yields.1.symm⟩
  | false =>
    rw [outcome_expect_of_false here, outcome_missing, Except.ok.injEq, Prod.mk.injEq] at yields
    refine Or.inr ⟨rfl, yields.1.symm, ?_⟩
    rw [← yields.2]

theorem State.takes_of_not_isAt {kind : Kind} {rest : List PlacedToken} (ahead : s.rest = rest)
    (name : s.isAt .identifier = false)
    (member : kind = .baseClassInvokationExpression ∨ s.isAt .openParenthesis = false) :
    ∀ next ∈ rest.head?, kind.takes next.kind = false := by
  subst ahead
  intro next first
  obtain ⟨later, ahead⟩ := List.head?_eq_some_iff.mp (Option.mem_def.mp first)
  rw [State.isAt, State.currentKind_of_ahead ahead] at name member
  rcases member with rfl | member
  · simp [Kind.takes, name]
  · simp [Kind.takes, name, member]

theorem arguments_gives {placed : PlacedToken} {rest : List PlacedToken}
    (ahead : s.rest = placed :: rest) (close : Kind) :
    Gives (arguments inner close) s fun parts _ =>
      ∃ more, parts = .leaf placed.token :: more := by
  have opening : Gives advance s fun token _ => token = placed.token := by
    intro token t yields
    rw [outcome_advance ahead, Except.ok.injEq, Prod.mk.injEq] at yields
    exact yields.1.symm
  have anything {α : Type} (f : Read α) (t : State) : Gives f t fun _ _ => True :=
    fun _ _ _ => trivial
  refine opening.andThen fun token t same => ?_
  refine (anything _ t).andThen fun elements u _ => ?_
  refine (anything _ u).andThen fun closing v _ => ?_
  exact Gives.pure ⟨_, by rw [same]⟩

theorem dottedBase_gives (first : Element) :
    Gives (repeatRead (dottedStep fun base dot name =>
      Element.ofChildren .memberAccessExpression [base, .leaf dot, .leaf name]) first) s
      fun base _ => (s.previousHasTrailing = true → base = first) ∧
        ∃ more, base.tokens = first.tokens ++ more := by
  have loop : Gives (repeatRead (dottedStep fun base dot name =>
      Element.ofChildren .memberAccessExpression [base, .leaf dot, .leaf name]) first) s
      fun base t => (s.previousHasTrailing = true → base = first ∧ t = s) ∧
        ∃ more, base.tokens = first.tokens ++ more := by
    refine Gives.repeated ⟨fun _ => ⟨rfl, rfl⟩, [], by simp⟩ fun base t kept => ?_
    unfold dottedStep
    refine Gives.get (Gives.ite (fun here => ?_) fun _ => Gives.pure kept)
    have anything (u : State) : Gives advance u fun _ _ => True := fun _ _ _ => trivial
    refine (anything t).andThen fun dot u _ => (anything u).andThen fun name v _ => ?_
    refine Gives.pure ⟨fun apart => ?_, ?_⟩
    · rw [State.isAtDottedName, (kept.1 apart).2, apart, Bool.and_eq_true] at here
      exact absurd here.2 (by decide)
    · obtain ⟨more, tokens⟩ := kept.2
      exact ⟨more ++ [dot, name], by simp [tokens, Element.tokens]⟩
  exact loop.mono fun base t kept => ⟨fun apart => (kept.1 apart).1, kept.2⟩

end

end Grammar

end MatrixScript
