import MatrixScript.Proofs.Grammar.BlockBuilding
import MatrixScript.Proofs.Tree.Everywhere

/-!
Operators bind by their strength, in sound texts and in broken ones.

A loop over binary operators stops for one of a few reasons (`State.Stops`), and each of them also
stops the loops around it. So after an operand no operator is left that binds more strongly than
the one before the operand, and what is read next groups to the left. Main statement: in the tree of
any text every operation satisfies `Element.Binds` (`Tree.parse_binds`).
-/

set_option autoImplicit false

namespace MatrixScript

open Grammar (Precedence)

namespace Element

/-- The strength of the operator of a binary operation or an assignment. -/
def precedence? (element : Element) : Option Precedence :=
  if element.kind = .binaryOperationExpression ∨ element.kind = .assignmentExpression then
    ((element.slot? 1).bind token?).bind fun operator => Precedence.ofBinary? operator.kind
  else none

/-- Whether the left side of an operation is left out, as in `:` and `:3`. -/
def isBareRange (element : Element) : Bool := (element.slot? 0).any (·.kind == .emptyExpression)

/-- An element stands after one or several signs at the front of another. -/
inductive UnderSigns : Element → Element → Prop
  | operand {signed operand : Element} (sign : signed.kind = .unaryPrefixOperationExpression)
      (found : signed.slot? 1 = some operand) : UnderSigns signed operand
  | deeper {signed inner operand : Element} (sign : signed.kind = .unaryPrefixOperationExpression)
      (found : signed.slot? 1 = some inner) (under : UnderSigns inner operand) :
      UnderSigns signed operand

/-- How strongly the operands of an operation or of a sign bind. -/
structure Binds (element : Element) : Prop where
  /-- The operator of an operation has a strength. -/
  operator : element.isNode = true → element.kind = .binaryOperationExpression ∨
    element.kind = .assignmentExpression → element.precedence?.isSome = true
  /-- Operators of one strength group to the left. -/
  left : ∀ {precedence inner operand}, element.precedence? = some precedence →
    element.slot? 0 = some operand → operand.precedence? = some inner →
    precedence.strength ≤ inner.strength
  /-- The right side binds more strongly, unless it is a range without left side. -/
  right : ∀ {precedence inner operand}, element.precedence? = some precedence →
    element.slot? 2 = some operand → operand.precedence? = some inner →
    operand.isBareRange = false → precedence.strength < inner.strength
  /-- A sign is not the base of a power. -/
  base : ∀ {operand}, element.precedence? = some .power → element.slot? 0 = some operand →
    operand.kind ≠ .unaryPrefixOperationExpression
  /-- Of the operations only powers stand under a sign, and ranges without left side. -/
  signed : ∀ {inner operand}, element.kind = .unaryPrefixOperationExpression →
    element.slot? 1 = some operand → operand.precedence? = some inner →
    operand.isBareRange = false → inner = .power
  /-- Under the signs of an exponent not even powers stand. -/
  exponent : ∀ {exponent operand}, element.precedence? = some .power →
    element.slot? 2 = some exponent → UnderSigns exponent operand →
    operand.precedence?.isSome = true → operand.isBareRange = true

private theorem precedence?_eq_none {element : Element} (plain : element.kind.isOperation = false) :
    element.precedence? = none := by
  have other : ¬(element.kind = .binaryOperationExpression ∨
      element.kind = .assignmentExpression) := by
    rintro (same | same) <;> simp [same, Kind.isOperation] at plain
  simp [precedence?, other]

private theorem exists_operator {element : Element} {precedence : Precedence}
    (known : element.precedence? = some precedence) :
    ∃ kind, Precedence.ofBinary? kind = some precedence := by
  rw [precedence?] at known
  split at known
  · obtain ⟨operator, -, strength⟩ := Option.bind_eq_some_iff.mp known
    exact ⟨operator.kind, strength⟩
  · cases known

private theorem Binds.plain {element : Element} (plain : element.kind.isOperation = false) :
    element.Binds := by
  have none := precedence?_eq_none plain
  have unsigned : element.kind ≠ .unaryPrefixOperationExpression := by
    intro same
    simp [same, Kind.isOperation] at plain
  constructor
  case operator =>
    rintro - (same | same) <;> simp [same, Kind.isOperation] at plain
  case signed => exact fun same => absurd same unsigned
  all_goals simp [none]

private theorem Binds.leaf (token : Token) : (Element.leaf token).Binds := by
  have empty (index : Nat) : (Element.leaf token).slot? index = none := rfl
  have none : (Element.leaf token).precedence? = none := by simp [precedence?, empty]
  constructor
  case operator => simp [isNode]
  case signed => simp [empty]
  all_goals simp [none]

end Element

instance : Heritable (Element.Everywhere Element.Binds) where
  leaf token _ _ := .leaf (.leaf token)
  node _ _ _ plain _ _ below := .node (.plain plain) below
  parenthesized kind _ around _ below := by
    have plain : kind.isOperation = false := by cases kind <;> first | rfl | cases around
    refine .node (.plain plain) fun slot member element filled => ?_
    obtain good | ⟨token, rfl, -⟩ := below slot member element filled
    · exact good
    · exact .leaf (.leaf token)

namespace Grammar

theorem Precedence.ofBinary?_ne_signedPower (kind : Kind) :
    ofBinary? kind ≠ some .signedPower := by
  cases kind <;> decide

theorem Precedence.eq_power {kind : Kind} {precedence : Precedence}
    (known : ofBinary? kind = some precedence) (above : unary.strength < precedence.strength) :
    precedence = .power := by
  cases precedence with
  | power => rfl
  | signedPower => exact absurd known (ofBinary?_ne_signedPower kind)
  | _ => exact absurd above (by decide)

theorem Precedence.strength_le_power (precedence : Precedence) :
    precedence.strength ≤ power.strength := by
  cases precedence <;> decide

/-- Why no operator above a floor is taken: the line ends, no operator comes next or none that is
strong enough, or a sign starts the next element of a matrix. -/
def State.Stops (state : State) (inside : Bool) (floor : Precedence) : Prop :=
  state.previousEndsLine = true ∨
    (∀ precedence, Precedence.ofBinary? state.currentKind = some precedence →
      precedence.strength ≤ floor.strength) ∨
    (inside && state.startsSignedElement) = true

/-- An expression that was read above a floor. -/
structure Bounded (floor : Precedence) (element : Element) : Prop where
  good : element.Everywhere Element.Binds
  expression : element.isA .expression = true
  /-- Its own operator is above the floor. -/
  above : ∀ {inner}, element.precedence? = some inner → element.isBareRange = false →
    floor.strength < inner.strength
  /-- In an exponent, no operation stands under its signs. -/
  exponent : floor = .power → ∀ {operand}, Element.UnderSigns element operand →
    operand.precedence?.isSome = true → operand.isBareRange = true

/-- A whole expression above a floor, after which no operator above the floor comes. -/
structure Settled (inside : Bool) (floor : Precedence) (element : Element) (state : State) :
    Prop where
  bounded : Bounded floor element
  stops : state.Stops inside floor

/-- A left side, after which an operator may come. -/
structure Pending (inside : Bool) (floor : Precedence) (element : Element) (state : State) :
    Prop where
  bounded : Bounded floor element
  /-- No operator that binds more strongly than its own. -/
  after : ∀ {inner}, element.precedence? = some inner → state.Stops inside inner
  /-- No power after a sign. -/
  signs : element.kind = .unaryPrefixOperationExpression →
    floor = .power ∨ state.Stops inside .unary

theorem State.Stops.ends {state : State} {inside : Bool} {floor : Precedence}
    (ended : state.previousEndsLine = true) : state.Stops inside floor :=
  Or.inl ended

private theorem State.Stops.follow {state : State} {inside : Bool} {floor : Precedence}
    (here : state.isAtAny emptyOperandFollow = true) : state.Stops inside floor := by
  refine Or.inr (Or.inl ?_)
  intro precedence known
  have table (kind : Kind) (member : emptyOperandFollow.contains kind = true) :
      Precedence.ofBinary? kind = none := by
    revert member
    cases kind <;> decide
  rw [table _ here] at known
  cases known

theorem State.Stops.strength_le {state : State} {inside : Bool} {floor precedence : Precedence}
    (stops : state.Stops inside floor) (goesOn : ¬state.previousEndsLine = true)
    (unsigned : ¬(inside && state.startsSignedElement) = true)
    (known : Precedence.ofBinary? state.currentKind = some precedence) :
    precedence.strength ≤ floor.strength := by
  rcases stops with ended | weak | sign
  · exact absurd ended goesOn
  · exact weak precedence known
  · exact absurd sign unsigned

private theorem not_underSigns {element operand : Element}
    (other : element.kind ≠ .unaryPrefixOperationExpression) :
    ¬Element.UnderSigns element operand := by
  intro under
  cases under with
  | operand sign _ => exact other sign
  | deeper sign _ _ => exact other sign

private theorem IsTerm.bounded {element : Element}
    (term : IsTerm (Element.Everywhere Element.Binds) element) (floor : Precedence) :
    Bounded floor element where
  good := term.good
  expression := term.expression
  above known := by
    rw [Element.precedence?_eq_none term.plain] at known
    cases known
  exponent _ _ under := by
    refine absurd under (not_underSigns ?_)
    intro sign
    have plain := term.plain
    rw [sign] at plain
    cases plain

private theorem emptyExpression_isTerm :
    IsTerm (Element.Everywhere Element.Binds) emptyExpression :=
  isTerm_node rfl rfl rfl rfl trivial

private theorem precedence?_operation {kind : Kind}
    (operation : kind = .binaryOperationExpression ∨ kind = .assignmentExpression)
    (left right : Element) (operator : Token) :
    (Element.ofChildren kind [left, .leaf operator, right]).precedence? =
      Precedence.ofBinary? operator.kind := by
  rcases operation with rfl | rfl <;> rfl

private theorem good_operation {kind : Kind} {precedence : Precedence} {left right : Element}
    {operator : Token}
    (operation : kind = .binaryOperationExpression ∨ kind = .assignmentExpression)
    (known : Precedence.ofBinary? operator.kind = some precedence)
    (before : left.Everywhere Element.Binds)
    (weaker : ∀ {inner}, left.precedence? = some inner → precedence.strength ≤ inner.strength)
    (base : precedence = .power → left.kind ≠ .unaryPrefixOperationExpression)
    (read : Bounded precedence right) :
    (Element.ofChildren kind [left, .leaf operator, right]).Everywhere Element.Binds := by
  have strength := precedence?_operation operation left right operator
  rw [known] at strength
  have binds : (Element.ofChildren kind [left, .leaf operator, right]).Binds := by
    constructor
    case operator => simp [strength]
    case left =>
      intro other inner operand here first found
      cases strength.symm.trans here
      cases first
      exact weaker found
    case right =>
      intro other inner operand here last found bare
      cases strength.symm.trans here
      cases last
      exact read.above found bare
    case base =>
      intro operand here first
      cases strength.symm.trans here
      cases first
      exact base rfl
    case signed =>
      intro inner operand sign
      rcases operation with rfl | rfl <;> cases sign
    case exponent =>
      intro exponent operand here last
      cases strength.symm.trans here
      cases last
      exact read.exponent rfl
  apply Element.Everywhere.node binds
  simp [before, read.good, Element.Everywhere.leaf (Element.Binds.leaf operator)]

private theorem good_sign {floor : Precedence} {sign : Token} {body : Element}
    (strong : Precedence.unary.strength ≤ floor.strength) (read : Bounded floor body) :
    (Element.ofChildren .unaryPrefixOperationExpression
      [.leaf sign, body]).Everywhere Element.Binds := by
  have none : (Element.ofChildren .unaryPrefixOperationExpression
      [.leaf sign, body]).precedence? = none := rfl
  have binds : (Element.ofChildren .unaryPrefixOperationExpression [.leaf sign, body]).Binds := by
    constructor
    case operator =>
      rintro - (same | same) <;> cases same
    case signed =>
      intro inner operand _ found known bare
      cases found
      have above := read.above known bare
      obtain ⟨kind, operator⟩ := Element.exists_operator known
      exact Precedence.eq_power operator (by omega)
    all_goals simp [none]
  apply Element.Everywhere.node binds
  simp [read.good, Element.Everywhere.leaf (Element.Binds.leaf sign)]

private theorem IsTerm.pending {element : Element}
    (term : IsTerm (Element.Everywhere Element.Binds) element) (inside : Bool)
    (floor : Precedence) (state : State) : Pending inside floor element state where
  bounded := term.bounded floor
  after known := by
    rw [Element.precedence?_eq_none term.plain] at known
    cases known
  signs sign := by
    have plain := term.plain
    rw [sign] at plain
    cases plain

private theorem Settled.signed {inside : Bool} {floor : Precedence} (plain : floor ≠ .signedPower)
    {sign : Token} {body : Element} {state : State}
    (read : Settled inside (.ofSigned floor) body state) :
    Pending inside floor (.ofChildren .unaryPrefixOperationExpression [.leaf sign, body])
      state := by
  have none : (Element.ofChildren .unaryPrefixOperationExpression
      [.leaf sign, body]).precedence? = none := rfl
  constructor
  case bounded =>
    constructor
    case good =>
      apply good_sign _ read.bounded
      rw [Precedence.ofSigned]
      split <;> decide
    case expression => rfl
    case above =>
      intro inner known
      cases none.symm.trans known
    case exponent =>
      rintro rfl operand under operation
      have bounded : Bounded .power body := read.bounded
      cases under with
      | operand _ found =>
        cases found
        obtain ⟨inner, known⟩ := Option.isSome_iff_exists.mp operation
        cases bare : body.isBareRange with
        | true => rfl
        | false =>
          have above := bounded.above known bare
          have top := inner.strength_le_power
          omega
      | deeper _ found under =>
        cases found
        exact bounded.exponent rfl under operation
  case after =>
    intro inner known
    cases none.symm.trans known
  case signs =>
    intro _
    by_cases weak : floor.strength < Precedence.signedPower.strength
    · have stops := read.stops
      rw [Precedence.ofSigned, if_pos weak] at stops
      exact Or.inr stops
    · left
      cases floor with
      | power => rfl
      | signedPower => exact absurd rfl plain
      | _ => exact absurd weak (by decide)

private theorem Pending.operation {inside : Bool} {floor precedence : Precedence} {s t : State}
    {left right : Element} (pending : Pending inside floor left s) {kind : Kind} {operator : Token}
    (operation : kind = .binaryOperationExpression ∨ kind = .assignmentExpression)
    (known : Precedence.ofBinary? operator.kind = some precedence)
    (above : floor.strength < precedence.strength)
    (weaker : ∀ {inner}, left.precedence? = some inner → precedence.strength ≤ inner.strength)
    (base : precedence = .power → left.kind ≠ .unaryPrefixOperationExpression)
    (read : Settled inside precedence right t) :
    Pending inside floor (.ofChildren kind [left, .leaf operator, right]) t := by
  have strength := precedence?_operation operation left right operator
  rw [known] at strength
  have unsigned : (Element.ofChildren kind [left, .leaf operator, right]).kind ≠
      .unaryPrefixOperationExpression := by
    rcases operation with rfl | rfl <;> exact nofun
  constructor
  case bounded =>
    constructor
    case good => exact good_operation operation known pending.bounded.good weaker base read.bounded
    case expression => rcases operation with rfl | rfl <;> rfl
    case above =>
      intro inner found _
      cases strength.symm.trans found
      exact above
    case exponent =>
      intro _ operand under
      exact absurd under (not_underSigns unsigned)
  case after =>
    intro inner found
    cases strength.symm.trans found
    exact read.stops
  case signs =>
    intro sign
    exact absurd sign unsigned

/-! Rules for operations, for any reader of the operands. -/

private theorem missingOperand_settles {s : State} (lexed : s.Lexed)
    (ended : s.previousEndsLine = true) (inside : Bool) (floor : Precedence) :
    Gives missingOperand s (Settled inside floor) := by
  have term := (missingOperand_yields (Element.Everywhere Element.Binds)).gives s lexed
    (Nat.lt_succ_self _)
  have stays : Gives missingOperand s fun _ t => t.previous = s.previous := by
    intro element t yields
    rw [outcome_read, Except.ok.injEq] at yields
    rw [show t = (missingOperand s).2 by rw [yields]]
    rfl
  refine (term.and stays).mono fun element t facts => ?_
  obtain ⟨term, same⟩ := facts
  have still : t.previousEndsLine = true := by
    rw [State.previousEndsLine, same]
    exact ended
  exact ⟨term.bounded floor, .ends still⟩

section

variable {depth : Nat} {inner : Inner}
  (inner_settles : ∀ inside floor, floor ≠ .signedPower → ∀ s : State, s.Lexed →
    s.rest.length < depth → Gives (inner inside floor) s (Settled inside floor))
  {s : State} (lexed : s.Lexed)

include inner_settles lexed

private theorem operand_settles (short : s.rest.length < depth) (inside : Bool) {floor : Precedence}
    (plain : floor ≠ .signedPower) :
    Gives (operand inner inside floor) s (Settled inside floor) := by
  refine Gives.get (Gives.ite (fun ended => ?_) fun _ => ?_)
  · exact missingOperand_settles lexed ended inside floor
  · exact inner_settles inside floor plain s lexed short

private theorem rangeEnd_settles (short : s.rest.length < depth) (inside : Bool) :
    Gives (rangeEnd inner inside) s (Settled inside .colon) := by
  refine Gives.get (Gives.ite (fun out => Gives.pure ?_) fun _ => ?_)
  · constructor
    · exact emptyExpression_isTerm.bounded .colon
    · rcases Bool.or_eq_true_iff.mp out with ended | follow
      · exact .ends ended
      · exact .follow follow
  · exact inner_settles inside .colon (by decide) s lexed short

private theorem prefixed_pends (more : s.rest ≠ []) (short : s.rest.length ≤ depth) (inside : Bool)
    {floor : Precedence} (plain : floor ≠ .signedPower) :
    Gives (prefixed inner inside floor) s (Pending inside floor) := by
  have token := ((advance_lexed lexed).and (Forward.moves s)).and (Uses.advance more)
  refine token.andThen fun sign t facts => ?_
  obtain ⟨⟨-, moves⟩, shorter⟩ := facts
  have body : Gives (operand inner inside (.ofSigned floor)) t
      (Settled inside (.ofSigned floor)) := by
    apply operand_settles inner_settles (moves.lexed lexed) (by omega)
    rw [Precedence.ofSigned]
    split <;> decide
  refine Gives.get (Gives.iteThen (fun out => Gives.pure ?_) (fun _ => body) fun body u read => ?_)
  · rw [Bool.and_eq_true] at out
    exact ⟨emptyExpression_isTerm.bounded _, .follow out.2⟩
  · exact Gives.pure (read.signed plain)

private theorem bareRange_pends (more : s.rest ≠ []) (here : s.currentKind = .colon)
    (short : s.rest.length ≤ depth) (inside : Bool) (floor : Precedence) :
    Gives (advance >>= fun colon => rangeEnd inner inside >>= fun stop =>
      pure (Element.ofChildren .binaryOperationExpression [emptyExpression, .leaf colon, stop])) s
      (Pending inside floor) := by
  have token := ((advance_lexed lexed).and (Forward.moves s)).and (Uses.advance more)
  refine token.andThen fun colon t facts => ?_
  obtain ⟨⟨⟨same, -⟩, moves⟩, shorter⟩ := facts
  have known : Precedence.ofBinary? colon.kind = some .colon := by
    rw [same]
    show Precedence.ofBinary? s.currentKind = some .colon
    rw [here]
    rfl
  refine (rangeEnd_settles inner_settles (moves.lexed lexed) (by omega) inside).andThen
    fun stop u read => Gives.pure ?_
  have strength := precedence?_operation (Or.inl rfl) emptyExpression stop colon
  rw [known] at strength
  constructor
  case bounded =>
    constructor
    case good =>
      apply good_operation (Or.inl rfl) known emptyExpression_isTerm.good
      · intro inner found
        cases found
      · intro _ sign
        cases sign
      · exact read.bounded
    case expression => rfl
    case above =>
      intro inner _ bare
      cases bare
    case exponent =>
      intro _ operand under
      exact absurd under (not_underSigns (by simp [Element.ofChildren, Element.kind]))
  case after =>
    intro inner found
    cases strength.symm.trans found
    exact read.stops
  case signs =>
    intro sign
    cases sign

private theorem binaryStep_round (short : s.rest.length ≤ depth) (inside : Bool)
    {floor : Precedence}
    {left : Element} (pending : Pending inside floor left s) :
    Gives (binaryStep inner inside floor left) s fun further t =>
      further.elim (Settled inside floor left t) (Pending inside floor · t) := by
  refine Gives.get (Gives.ite (fun ended => ?_) fun goesOn => ?_)
  · exact Gives.pure ⟨pending.bounded, .ends ended⟩
  split
  case h_1 known =>
    refine Gives.pure ⟨pending.bounded, Or.inr (Or.inl ?_)⟩
    intro precedence found
    rw [known] at found
    cases found
  case h_2 precedence known =>
    refine Gives.ite (fun stops => Gives.pure ⟨pending.bounded, ?_⟩) fun taken => ?_
    · rcases Bool.or_eq_true_iff.mp stops with weak | sign
      · refine Or.inr (Or.inl ?_)
        intro other found
        cases known.symm.trans found
        simpa [Precedence.exceeds] using weak
      · exact Or.inr (Or.inr sign)
    rw [Bool.or_eq_true, not_or] at taken
    obtain ⟨strong, unsigned⟩ := taken
    have above : floor.strength < precedence.strength := by
      simpa [Precedence.exceeds] using strong
    have more : s.rest ≠ [] := by
      intro done
      rw [State.currentKind_of_done lexed.ends done] at known
      cases known
    have token := ((advance_lexed lexed).and (Forward.moves s)).and (Uses.advance more)
    refine token.andThen fun operator t facts => ?_
    obtain ⟨⟨⟨same, -⟩, moves⟩, shorter⟩ := facts
    have strength : Precedence.ofBinary? operator.kind = some precedence := by
      rw [same]
      exact known
    have range (colon : (operator.kind == .colon) = true) :
        Gives (rangeEnd inner inside) t (Settled inside precedence) := by
      rw [beq_iff_eq] at colon
      rw [colon] at strength
      cases strength
      exact rangeEnd_settles inner_settles (moves.lexed lexed) (by omega) inside
    have other : Gives (operand inner inside precedence) t (Settled inside precedence) := by
      apply operand_settles inner_settles (moves.lexed lexed) (by omega)
      rintro rfl
      exact Precedence.ofBinary?_ne_signedPower _ known
    refine Gives.iteThen range (fun _ => other) fun right u read => Gives.pure ?_
    apply pending.operation _ strength above _ _ read
    · split
      · exact Or.inr rfl
      · exact Or.inl rfl
    · intro inner found
      exact (pending.after found).strength_le goesOn unsigned known
    · rintro rfl sign
      rcases pending.signs sign with top | stops
      · rw [top] at above
        omega
      · exact absurd (stops.strength_le goesOn unsigned known) (by decide)

variable [∀ inside floor, Forward (inner inside floor)]
  [∀ inside floor, Encloses (inner inside floor)]

private theorem signed_pends (short : s.rest.length ≤ depth) (inside : Bool) {floor : Precedence}
    (plain : floor ≠ .signedPower) :
    Gives (signed inner inside floor) s (Pending inside floor) := by
  have ahead {kind : Kind} (here : s.currentKind = kind) (other : kind ≠ .eof) : s.rest ≠ [] :=
    State.more_of_currentKind lexed.ends here other
  have inner_yields (inside : Bool) : Yields depth (inner inside .expression) fun element =>
      element.Everywhere Element.Binds ∧ element.isA .expression = true := by
    constructor
    intro t lexed short
    have read := inner_settles inside .expression (by decide) t lexed short
    exact read.mono fun element u read => ⟨read.bounded.good, read.bounded.expression⟩
  refine Gives.get ?_
  split
  case h_1 here =>
    exact prefixed_pends inner_settles lexed (ahead here (by decide)) short inside plain
  case h_2 here =>
    exact prefixed_pends inner_settles lexed (ahead here (by decide)) short inside plain
  case h_3 here =>
    exact prefixed_pends inner_settles lexed (ahead here (by decide)) short inside plain
  case h_4 here =>
    exact bareRange_pends inner_settles lexed (ahead here (by decide)) here short inside floor
  case h_5 =>
    have term := (suffixed_yields _ inner_yields inside).gives s lexed (Nat.lt_succ_of_le short)
    exact term.mono fun element t term => term.pending inside floor t

private theorem climb_settles (short : s.rest.length ≤ depth) (inside : Bool) {floor : Precedence}
    (plain : floor ≠ .signedPower) :
    Gives (climb inner inside floor) s (Settled inside floor) := by
  have first := (signed_pends inner_settles lexed short inside plain).and (Forward.moves s)
  refine first.andThen fun left t facts => ?_
  obtain ⟨pending, moves⟩ := facts
  have shorter := moves.length_le
  -- Every round starts from a state that follows from `s`.
  refine Gives.settled (Steady.binaryStep inner inside floor)
    (fun left t => Pending inside floor left t ∧ s.Moves t) (fun left t _ kept => ?_)
    (moves.ends lexed.ends) ⟨pending, moves⟩
  obtain ⟨pending, moves⟩ := kept
  have shorter := moves.length_le
  have round := binaryStep_round inner_settles (moves.lexed lexed) (by omega) inside pending
  refine (round.and (Forward.moves t)).mono fun further u facts => ?_
  obtain ⟨kept, later⟩ := facts
  cases further with
  | none => exact kept
  | some further => exact ⟨kept, moves.trans later⟩

end

private theorem expressionWithin_settles (depth : Nat) (inside : Bool) (floor : Precedence)
    (plain : floor ≠ .signedPower) (s : State) (lexed : s.Lexed) (short : s.rest.length < depth) :
    Gives (expressionWithin depth inside floor) s (Settled inside floor) := by
  induction depth generalizing inside floor s with
  | zero => omega
  | succ depth ih => exact climb_settles ih lexed (Nat.le_of_lt_succ short) inside plain

end Grammar

namespace Tree

/-- In the tree of any text operators bind by their strength. -/
theorem parse_binds {text : List Char} {options : Options} {name : Option String} {tree : Tree}
    (parsed : Tree.parse text options name = .ok tree) :
    ∀ place ∈ (Located.root tree.root).descendants, place.element.Binds := by
  have within (depth : Nat) (inside : Bool) :
      Grammar.Yields depth (Grammar.expressionWithin depth inside .expression) fun element =>
        element.Everywhere Element.Binds ∧ element.isA .expression = true := by
    constructor
    intro s lexed short
    have read := Grammar.expressionWithin_settles depth inside .expression (by decide) s lexed short
    exact read.mono fun element t read => ⟨read.bounded.good, read.bounded.expression⟩
  have binds := good_root (Element.Everywhere Element.Binds) within parsed
  intro place member
  exact (Located.everywhere_of_mem_preorder binds (List.mem_filter.mp member).1).here

/-- Signs and powers, and an operator without its operand. -/
theorem parse_binds_signs :
    ∃ tree, Tree.parse "x = -2 ^ -3 ^ 2 * ;".toList {} none = .ok tree ∧
      (Located.root tree.root).descendants.any (·.element.precedence? == some .power) = true ∧
      ∀ place ∈ (Located.root tree.root).descendants, place.element.Binds := by
  have read : (Tree.parse "x = -2 ^ -3 ^ 2 * ;".toList {} none).toOption.any (fun tree =>
      (Located.root tree.root).descendants.any (·.element.precedence? == some .power)) = true := by
    decide +kernel
  obtain ⟨tree, parsed, power⟩ := exists_ok_of_any read
  exact ⟨tree, parsed, power, parse_binds parsed⟩

/-- Under the sign of an exponent a range without left side can stand. -/
theorem parse_signed_bareRange :
    ∃ tree, Tree.parse "2^-:3".toList {} none = .ok tree ∧
      ∃ place ∈ (Located.root tree.root).descendants, ∃ exponent operand,
        place.element.precedence? = some .power ∧ place.element.slot? 2 = some exponent ∧
        Element.UnderSigns exponent operand ∧ operand.precedence? = some .colon := by
  have read : (Tree.parse "2^-:3".toList {} none).toOption.any (fun tree =>
      (Located.root tree.root).descendants.any fun place =>
        place.element.precedence? == some .power && (place.element.slot? 2).any fun exponent =>
          exponent.kind == .unaryPrefixOperationExpression &&
            (exponent.slot? 1).any (·.precedence? == some .colon)) = true := by
    decide +kernel
  obtain ⟨tree, parsed, found⟩ := exists_ok_of_any read
  obtain ⟨place, member, facts⟩ := List.any_eq_true.mp found
  rw [Bool.and_eq_true, beq_iff_eq] at facts
  obtain ⟨power, right⟩ := facts
  cases last : place.element.slot? 2 with
  | none => simp [last] at right
  | some exponent =>
    rw [last, Option.any_some, Bool.and_eq_true, beq_iff_eq] at right
    obtain ⟨sign, under⟩ := right
    cases inner : exponent.slot? 1 with
    | none => simp [inner] at under
    | some operand =>
      rw [inner, Option.any_some, beq_iff_eq] at under
      exact ⟨tree, parsed, place, member, exponent, operand, power, last, .operand sign inner,
        under⟩

end Tree

end MatrixScript
