import MatrixScript.Proofs.Grammar.Ahead
import MatrixScript.Proofs.Grammar.Binding
import MatrixScript.Proofs.Grammar.Composition
import MatrixScript.Proofs.Grammar.Formula

/-!
Reading an expression inverts writing it.

A formula that needs no further parentheses is read back from its tokens as its own element. The
proof follows the formula: `Formula.Climbs` says that climbing over the tokens of a formula comes to
the loop for binary operators with the whole formula as the left side, so the spine of operations
that group to the left is taken up one operator after the other.
-/

set_option autoImplicit false

namespace MatrixScript.Grammar

/-- Kinds of which a token after an operand makes the operand longer. -/
def suffixFirst : List Kind :=
  [.unquotedStringLiteral, .openParenthesis, .openBrace, .dot, .apostrophe, .dotApostrophe, .at]

def State.Closes (state : State) : Prop := state.currentKind ∉ suffixFirst

private theorem Operator.not_suffixFirst (operator : Operator) : operator.kind ∉ suffixFirst := by
  obtain ⟨kind, isBinary⟩ := operator
  revert isBinary
  cases kind <;> decide

theorem State.Stops.mono {state : State} {inside : Bool} {a b : Precedence}
    (stops : state.Stops inside a) (le : a.strength ≤ b.strength) : state.Stops inside b := by
  rcases stops with ended | weak | sign
  · exact Or.inl ended
  · exact Or.inr (Or.inl fun precedence known => Nat.le_trans (weak precedence known) le)
  · exact Or.inr (Or.inr sign)

private theorem Precedence.ofBinary?_ne_expression (kind : Kind) :
    ofBinary? kind ≠ some .expression := by
  cases kind <;> decide

private theorem Precedence.ofSigned_cases {floor : Precedence} (plain : floor ≠ .signedPower) :
    floor = .power ∧ ofSigned floor = .power ∨ floor ≠ .power ∧ ofSigned floor = .unary := by
  revert plain
  cases floor <;> decide

private theorem Precedence.unary_le_ofSigned (floor : Precedence) :
    unary.strength ≤ (ofSigned floor).strength := by
  cases floor <;> decide

private theorem Precedence.strength_le_ofSigned (floor : Precedence) :
    floor.strength ≤ (ofSigned floor).strength := by
  cases floor <;> decide

section

variable {inside : Bool} {floor : Precedence} {s t : State} {left : Element}

theorem outcome_binaryStep_of_stops {inner : Inner} (stops : t.Stops inside floor) :
    outcome (binaryStep inner inside floor left) t = .ok (none, t) := by
  rw [binaryStep, outcome_get_bind]
  by_cases ended : t.previousEndsLine = true
  · rw [if_pos ended]
    exact outcome_pure _ _
  · rw [if_neg ended]
    cases known : Precedence.ofBinary? t.currentKind with
    | none => exact outcome_pure _ _
    | some precedence =>
      by_cases sign : (inside && t.startsSignedElement) = true
      · simp only [sign, Bool.or_true, if_true]
        exact outcome_pure _ _
      · have weak : precedence.strength ≤ floor.strength := stops.strength_le ended sign known
        have low : precedence.exceeds floor = false := by
          simp [Precedence.exceeds]
          omega
        simp only [low]
        exact outcome_pure _ _

theorem outcome_suffixStep_of_closes {inner : Inner} (closes : t.Closes) :
    outcome (suffixStep inner inside left) t = .ok (none, t) := by
  rw [suffixStep, outcome_get_bind]
  by_cases ended : t.previousEndsLine = true
  · rw [if_pos ended]
    exact outcome_pure _ _
  · rw [if_neg ended]
    have other : t.currentKind ∉ suffixFirst := closes
    split <;> simp_all [suffixFirst, outcome_pure]

private theorem outcome_suffixed_of_closes {inner : Inner} (closes : t.Closes)
    (term : outcome (Grammar.term inner inside) s = .ok (left, t)) :
    outcome (suffixed inner inside) s = .ok (left, t) := by
  have bare : t.isAt .unquotedStringLiteral = false := by
    have other : t.currentKind ∉ suffixFirst := closes
    simp only [suffixFirst, List.mem_cons, not_or] at other
    simpa [State.isAt] using other.1
  rw [suffixed, outcome_bind_of_ok term, outcome_get_bind]
  simp only [bare, Bool.and_false]
  exact outcome_repeat_stop (outcome_suffixStep_of_closes closes)

end

namespace Formula

def tokens (formula : Formula) (gap : Gap) : List Token :=
  (formula.written gap).map Written.token

private theorem tokens_parenthesized (body : Formula) (gap : Gap) :
    (parenthesized body).tokens gap = Written.token ⟨.fixed .openParenthesis, .space⟩ ::
      (body.tokens .space ++ [Written.token ⟨.fixed .closeParenthesis, gap⟩]) := by
  simp [tokens, written_parenthesized]

private theorem tokens_signed (sign : Sign) (body : Formula) (gap : Gap) :
    (signed sign body).tokens gap =
      Written.token ⟨.fixed sign.kind, .space⟩ :: body.tokens gap := by
  simp [tokens, written_signed]

private theorem tokens_binary (left : Formula) (operator : Operator) (right : Formula) (gap : Gap) :
    (binary left operator right).tokens gap = left.tokens .space ++
      Written.token ⟨.fixed operator.kind, .space⟩ :: right.tokens gap := by
  simp [tokens, written_binary]

/-- The tree of a formula holds the tokens that are written, in their order. -/
theorem tokens_element (formula : Formula) (gap : Gap) :
    (formula.element gap).tokens = formula.tokens gap := by
  induction formula generalizing gap with
  | number literal => rfl
  | identifier name => rfl
  | parenthesized body ih =>
    simp [element, tokens_parenthesized, ih, Element.tokens]
  | signed sign body ih => simp [element, tokens_signed, ih, Element.tokens]
  | binary left operator right left_ih right_ih =>
    simp [element, tokens_binary, left_ih, right_ih, Element.tokens]

def first : List Kind := [.numberLiteral, .identifier, .openParenthesis, .plus, .minus, .tilde]

private theorem lexemes_starts (formula : Formula) :
    ∃ lexeme more, formula.lexemes = lexeme :: more ∧ lexeme.kind ∈ first ∧
      (lexeme.kind = .identifier → Word.isReserved lexeme.text = false) := by
  induction formula with
  | number literal =>
    exact ⟨literal.lexeme, [], rfl, (by decide : Kind.numberLiteral ∈ first), by rintro ⟨⟩⟩
  | identifier name =>
    exact ⟨name.lexeme, [], rfl, (by decide : Kind.identifier ∈ first), fun _ => name.free⟩
  | parenthesized body _ => exact ⟨_, _, rfl, by decide, by decide⟩
  | signed sign body _ =>
    refine ⟨_, _, rfl, ?_, fun identifier => absurd identifier sign.isInner.2.2.2⟩
    have known := sign.isSign
    simp only [first, Lexeme.fixed, List.mem_cons, List.not_mem_nil, or_false] at known ⊢
    exact Or.inr (Or.inr (Or.inr known))
  | binary left operator right left_ih _ =>
    obtain ⟨lexeme, more, starts, rest⟩ := left_ih
    refine ⟨lexeme, more ++ .fixed operator.kind :: right.lexemes, ?_, rest⟩
    rw [lexemes, starts, List.cons_append]

theorem ahead_starts {formula : Formula} {gap : Gap} {s t : State}
    (ahead : Ahead s (formula.tokens gap) t) :
    s.currentKind ∈ first ∧ ∀ word ∈ Word.reserved, s.isAtWord word = false := by
  obtain ⟨lexeme, more, starts, kind, free⟩ := formula.lexemes_starts
  obtain ⟨inner, later, split⟩ : ∃ inner later,
      formula.tokens gap = Written.token ⟨lexeme, inner⟩ :: later := by
    rw [tokens, written, starts]
    cases more with
    | nil => exact ⟨gap, [], rfl⟩
    | cons _ _ => exact ⟨.space, _, rfl⟩
  rw [split] at ahead
  constructor
  · rw [ahead.currentKind]
    exact kind
  · intro word member
    rw [State.isAtWord, ahead.current, Written.token_isWord]
    by_cases identifier : lexeme.kind = .identifier
    · have other := free identifier
      simp only [Word.isReserved, List.any_eq_false, beq_iff_eq] at other
      simp [Ne.symm (other word member)]
    · simp [identifier]

theorem previousEndsLine {formula : Formula} {gap : Gap} {s t : State}
    (ahead : Ahead s (formula.tokens gap) t) : t.previousEndsLine = (gap == .lineFeed) := by
  obtain ⟨front, lexeme, last⟩ := Written.spaced_ends formula.lexemes_ne_nil gap
  have previous : t.previous = some (Written.token ⟨lexeme, gap⟩) := by
    apply ahead.previous
    simp [tokens, written, last]
  simp [State.previousEndsLine, previous]

/-- A formula that can stand above a floor without parentheses. -/
structure Above (formula : Formula) (floor : Precedence) : Prop where
  proper : formula.isProper = true
  above : ∀ precedence ∈ formula.precedence?, floor.strength < precedence.strength
  exponent : floor = .power → formula.isPlainExponent = true
  /-- No operator sets this floor. -/
  floor : floor ≠ .signedPower

theorem Above.of_isProper {formula : Formula} (proper : formula.isProper = true) :
    formula.Above .expression := by
  constructor
  · exact proper
  · intro precedence known
    have other : precedence ≠ .expression := by
      rintro rfl
      cases formula with
      | binary left operator right =>
        simp only [precedence?, Option.mem_some_iff] at known
        have kind := operator.ofBinary?_kind
        rw [known] at kind
        exact Precedence.ofBinary?_ne_expression _ kind
      | _ => cases known
    revert other
    cases precedence <;> decide
  · simp
  · simp

/-- The floor at which reading a formula stops, when it stands above a floor itself. -/
def limit : Formula → Precedence → Precedence
  | .binary _ operator _, _ => operator.precedence
  | .signed .., floor => .ofSigned floor
  | _, _ => .power

/-- Climbing over the tokens of a formula comes to the loop with the formula as left side. -/
def Climbs (formula : Formula) : Prop :=
  ∀ {gap : Gap} {depth : Nat} {inside : Bool} {floor : Precedence} {s t : State},
    Ahead s (formula.tokens gap) t → s.eof.kind = .eof → s.rest.length ≤ depth → t.Closes →
    formula.Above floor → t.Stops inside (formula.limit floor) →
    outcome (climb (expressionWithin depth) inside floor) s =
      outcome (repeatRead (binaryStep (expressionWithin depth) inside floor)
        (formula.element gap)) t

private theorem Above.floor_le_limit {formula : Formula} {floor : Precedence}
    (above : formula.Above floor) : floor.strength ≤ (formula.limit floor).strength := by
  cases formula with
  | signed sign body => exact floor.strength_le_ofSigned
  | binary left operator right => exact Nat.le_of_lt (above.above _ rfl)
  | _ => exact floor.strength_le_power

theorem Climbs.complete {formula : Formula} (climbs : formula.Climbs) {gap : Gap} {depth : Nat}
    {inside : Bool} {floor : Precedence} {s t : State} (ahead : Ahead s (formula.tokens gap) t)
    (ends : s.eof.kind = .eof) (short : s.rest.length < depth) (closes : t.Closes)
    (above : formula.Above floor) (stops : t.Stops inside floor) :
    outcome (expressionWithin depth inside floor) s = .ok (formula.element gap, t) := by
  cases depth with
  | zero => omega
  | succ depth =>
    have limited := stops.mono above.floor_le_limit
    have climbed := climbs ahead ends (Nat.le_of_lt_succ short) closes above limited
    rw [expressionWithin, climbed]
    exact outcome_repeat_stop (outcome_binaryStep_of_stops stops)

theorem outcome_climb_of_suffixed {inner : Inner} {inside : Bool} {floor : Precedence}
    {s t : State} {left : Element}
    (unsigned : s.currentKind ∉ [Kind.plus, .minus, .tilde, .colon])
    (whole : outcome (suffixed inner inside) s = .ok (left, t)) :
    outcome (climb inner inside floor) s =
      outcome (repeatRead (binaryStep inner inside floor) left) t := by
  have signed : outcome (Grammar.signed inner inside floor) s = .ok (left, t) := by
    rw [Grammar.signed, outcome_get_bind]
    simp only [List.mem_cons, List.not_mem_nil, or_false, not_or] at unsigned
    split <;> first | exact whole | simp_all
  exact outcome_bind_of_ok signed

theorem outcome_climb_of_term {inner : Inner} {inside : Bool} {floor : Precedence} {s t : State}
    {left : Element} (closes : t.Closes)
    (unsigned : s.currentKind ∉ [Kind.plus, .minus, .tilde, .colon])
    (term : outcome (Grammar.term inner inside) s = .ok (left, t)) :
    outcome (climb inner inside floor) s =
      outcome (repeatRead (binaryStep inner inside floor) left) t :=
  outcome_climb_of_suffixed unsigned (outcome_suffixed_of_closes closes term)

theorem number_climbs (literal : Literal) : (number literal).Climbs := by
  intro gap depth inside floor s t ahead ends short closes above stops
  have kind : s.currentKind = .numberLiteral := ahead.currentKind
  apply outcome_climb_of_term closes (by simp [kind])
  obtain ⟨u, used, -, done⟩ := ahead.advance
  cases done
  rw [term, outcome_get_bind, kind]
  exact outcome_bind_of_ok used

private theorem identifier_climbs (name : Name) : (identifier name).Climbs := by
  intro gap depth inside floor s t ahead ends short closes above stops
  have kind : s.currentKind = .identifier := ahead.currentKind
  apply outcome_climb_of_term closes (by simp [kind])
  obtain ⟨u, used, -, done⟩ := ahead.advance
  cases done
  rw [term, outcome_get_bind, kind]
  exact outcome_bind_of_ok used

private theorem parenthesized_climbs {body : Formula} (climbs : body.Climbs) :
    (parenthesized body).Climbs := by
  intro gap depth inside floor s t ahead ends short closes above stops
  rw [tokens_parenthesized] at ahead
  have kind : s.currentKind = .openParenthesis := ahead.currentKind
  apply outcome_climb_of_term closes (by simp [kind])
  obtain ⟨u, opened, opening, inside⟩ := ahead.advance
  obtain ⟨v, within, closing⟩ := inside.append
  obtain ⟨w, closed, -, done⟩ := closing.advance
  cases done
  have after : v.currentKind = .closeParenthesis := closing.currentKind
  have shorter := opening.length_single
  have read : outcome (expressionWithin depth false .expression) u =
      .ok (body.element .space, v) := by
    apply climbs.complete within (opening.ends ends)
    · omega
    · rw [State.Closes, after]
      decide
    · exact .of_isProper above.proper
    · refine Or.inr (Or.inl ?_)
      intro precedence known
      rw [after] at known
      cases known
  have here : v.isAt .closeParenthesis = true := by simp [State.isAt, after]
  rw [term, outcome_get_bind, kind]
  show outcome (Grammar.parenthesized _) s = _
  rw [Grammar.parenthesized, outcome_bind_of_ok opened, outcome_bind_of_ok read,
    outcome_bind_of_ok ((outcome_expect_of_true here).trans closed)]
  rfl

private theorem emptyOperandFollow_of_first {s : State} (starts : s.currentKind ∈ Formula.first) :
    s.isAtAny emptyOperandFollow = false := by
  rw [State.isAtAny]
  revert starts
  cases s.currentKind <;> decide

theorem signed_of_isSign {inner : Inner} {inside : Bool} {floor : Precedence} {s : State}
    (sign : s.currentKind ∈ [Kind.plus, .minus, .tilde]) :
    outcome (Grammar.signed inner inside floor) s = outcome (prefixed inner inside floor) s := by
  rw [Grammar.signed, outcome_get_bind]
  simp only [List.mem_cons, List.not_mem_nil, or_false] at sign
  rcases sign with kind | kind | kind <;> rw [kind]

private theorem Above.signed_body {sign : Sign} {body : Formula} {floor : Precedence}
    (above : (signed sign body).Above floor) : body.Above (.ofSigned floor) := by
  obtain ⟨proper, -, exponent, plain⟩ := above
  simp only [isProper, Bool.and_eq_true] at proper
  obtain ⟨powers, proper⟩ := proper
  constructor
  · exact proper
  · intro precedence known
    rw [Option.mem_def] at known
    have power : precedence = .power := by simpa [known] using powers
    subst power
    rcases Precedence.ofSigned_cases plain with ⟨rfl, same⟩ | ⟨-, same⟩
    · have bare := exponent rfl
      simp [isPlainExponent, known] at bare
    · rw [same]
      decide
  · intro same
    rcases Precedence.ofSigned_cases plain with ⟨rfl, -⟩ | ⟨-, other⟩
    · have bare := exponent rfl
      simp only [isPlainExponent, Bool.and_eq_true] at bare
      exact bare.2
    · rw [other] at same
      cases same
  · cases floor <;> decide

private theorem signed_climbs (sign : Sign) {body : Formula} (climbs : body.Climbs) :
    (signed sign body).Climbs := by
  intro gap depth inside floor s t ahead ends short closes above stops
  rw [tokens_signed] at ahead
  have kind : s.currentKind = sign.kind := ahead.currentKind
  obtain ⟨u, used, one, within⟩ := ahead.advance
  have shorter := one.length_single
  have read : outcome (expressionWithin depth inside (.ofSigned floor)) u =
      .ok (body.element gap, t) := by
    apply climbs.complete within (one.ends ends)
    · omega
    · exact closes
    · exact above.signed_body
    · exact stops
  have operand : outcome (operand (expressionWithin depth) inside (.ofSigned floor)) u =
      .ok (body.element gap, t) := by
    have goesOn : u.previousEndsLine = false := by
      simp [State.previousEndsLine, one.previous rfl]
    rw [Grammar.operand, outcome_get_bind]
    simpa [goesOn] using read
  have signed : outcome (Grammar.signed (expressionWithin depth) inside floor) s =
      .ok ((Formula.signed sign body).element gap, t) := by
    have given : u.isAtAny emptyOperandFollow = false :=
      emptyOperandFollow_of_first (ahead_starts within).1
    rw [signed_of_isSign (kind ▸ sign.isSign), prefixed, outcome_bind_of_ok used,
      outcome_get_bind]
    simp only [given, Bool.and_false]
    exact outcome_bind_of_ok operand
  exact outcome_bind_of_ok signed

private theorem Above.binary_left {left right : Formula} {operator : Operator} {floor : Precedence}
    (above : (binary left operator right).Above floor) : left.Above floor := by
  obtain ⟨proper, strong, exponent, plain⟩ := above
  simp only [isProper, Bool.and_eq_true] at proper
  obtain ⟨⟨⟨⟨weaker, -⟩, -⟩, proper⟩, -⟩ := proper
  have own := strong operator.precedence rfl
  constructor
  · exact proper
  · intro precedence known
    rw [Option.mem_def] at known
    have atLeast : operator.precedence.strength ≤ precedence.strength := by
      simpa [known] using weaker
    omega
  · rintro rfl
    have most := operator.precedence.strength_le_power
    omega
  · exact plain

private theorem Above.binary_right {left right : Formula} {operator : Operator} {floor : Precedence}
    (above : (binary left operator right).Above floor) : right.Above operator.precedence := by
  have proper := above.proper
  simp only [isProper, Bool.and_eq_true, Bool.or_eq_true, bne_iff_ne] at proper
  obtain ⟨⟨⟨⟨-, stronger⟩, exponent⟩, -⟩, proper⟩ := proper
  constructor
  · exact proper
  · intro precedence known
    rw [Option.mem_def] at known
    simpa [known] using stronger
  · intro power
    rcases exponent with other | ⟨-, bare⟩
    · exact absurd power other
    · exact bare
  · intro same
    have kind := operator.ofBinary?_kind
    rw [same] at kind
    exact Precedence.ofBinary?_ne_signedPower _ kind

private theorem Above.left_stops {left right : Formula} {operator : Operator} {floor : Precedence}
    {inside : Bool} {u : State} (above : (binary left operator right).Above floor)
    (here : u.currentKind = operator.kind) : u.Stops inside (left.limit floor) := by
  have own : u.Stops inside operator.precedence := by
    refine Or.inr (Or.inl ?_)
    intro precedence known
    rw [here, operator.ofBinary?_kind, Option.some.injEq] at known
    exact Nat.le_of_eq (congrArg Precedence.strength known.symm)
  have proper := above.proper
  simp only [isProper, Bool.and_eq_true, Bool.or_eq_true, bne_iff_ne] at proper
  obtain ⟨⟨⟨⟨weaker, -⟩, power⟩, -⟩, -⟩ := proper
  cases left with
  | binary _ inner _ =>
    apply own.mono
    simpa [precedence?, limit] using weaker
  | signed sign body =>
    have low : operator.precedence.strength ≤ Precedence.unary.strength := by
      apply Nat.le_of_not_lt
      intro high
      have power' := Precedence.eq_power operator.ofBinary?_kind high
      simp [power', isSigned] at power
    exact own.mono (Nat.le_trans low (Precedence.unary_le_ofSigned floor))
  | _ => exact own.mono operator.precedence.strength_le_power

theorem outcome_binaryStep_of_operator {inner : Inner} {inside : Bool}
    {operator : Operator} {floor : Precedence}
    {left right : Element} {token : Token} {u v t : State} (sameLine : u.previousEndsLine = false)
    (kind : u.currentKind = operator.kind) (exceeds : operator.precedence.exceeds floor = true)
    (used : outcome advance u = .ok (token, v)) (same : token.kind = operator.kind)
    (unsigned : u.startsSignedElement = false)
    (further : v.previousEndsLine = false) (given : v.isAtAny emptyOperandFollow = false)
    (read : outcome (inner inside operator.precedence) v = .ok (right, t)) :
    outcome (binaryStep inner inside floor left) u =
      .ok (some (.ofChildren operator.resultKind [left, .leaf token, right]), t) := by
  rw [binaryStep, outcome_get_bind, sameLine, kind, operator.ofBinary?_kind]
  simp only [exceeds, Bool.not_true, unsigned, Bool.and_false, Bool.false_or, Bool.false_eq_true,
    if_false]
  rw [outcome_bind_of_ok used]
  by_cases colon : operator.kind = .colon
  · have precedence : operator.precedence = .colon := by
      have known := operator.ofBinary?_kind
      rw [colon] at known
      exact (Option.some.inj known).symm
    have range : outcome (rangeEnd inner inside) v = .ok (right, t) := by
      rw [precedence] at read
      rw [rangeEnd, outcome_get_bind]
      simpa [further, given] using read
    rw [if_pos (by simp [same, colon]), outcome_bind_of_ok range, same]
    rfl
  · have operand : outcome (operand inner inside operator.precedence) v = .ok (right, t) := by
      rw [Grammar.operand, outcome_get_bind]
      simpa [further] using read
    rw [if_neg (by simp [same, colon]), outcome_bind_of_ok operand, same]
    rfl

private theorem binary_climbs {left : Formula} (operator : Operator) {right : Formula}
    (left_climbs : left.Climbs) (right_climbs : right.Climbs) :
    (binary left operator right).Climbs := by
  intro gap depth inside floor s t ahead ends short closes above stops
  rw [tokens_binary] at ahead
  obtain ⟨u, before, operation⟩ := ahead.append
  obtain ⟨v, used, one, after⟩ := operation.advance
  have kind : u.currentKind = operator.kind := operation.currentKind
  have shorter := before.length
  have shorter' := one.length_single
  have leftSide : outcome (climb (expressionWithin depth) inside floor) s =
      outcome (repeatRead (binaryStep (expressionWithin depth) inside floor)
        (left.element .space)) u := by
    -- The operator that follows is below the limit of the left side, or it would be part of it.
    apply left_climbs before ends short
    · rw [State.Closes, kind]
      exact operator.not_suffixFirst
    · exact above.binary_left
    · exact above.left_stops kind
  have rightSide : outcome (expressionWithin depth inside operator.precedence) v =
      .ok (right.element gap, t) := by
    apply right_climbs.complete after (one.ends (before.ends ends))
    · omega
    · exact closes
    · exact above.binary_right
    · exact stops
  have round : outcome (binaryStep (expressionWithin depth) inside floor (left.element .space)) u =
      .ok (some ((binary left operator right).element gap), t) := by
    have exceeds : operator.precedence.exceeds floor = true := by
      simpa [Precedence.exceeds] using above.above _ rfl
    have given : v.isAtAny emptyOperandFollow = false :=
      emptyOperandFollow_of_first (ahead_starts after).1
    have sameLine : v.previousEndsLine = false := by
      simp [State.previousEndsLine, one.previous rfl]
    have unsigned : u.startsSignedElement = false := by
      rw [State.startsSignedElement, operation.current]
      exact Bool.and_false _
    exact outcome_binaryStep_of_operator (previousEndsLine before) kind exceeds used rfl
      unsigned sameLine given rightSide
  rw [leftSide]
  exact outcome_repeat_step (Steady.binaryStep _ _ _) (before.ends ends) round

private theorem climbs (formula : Formula) : formula.Climbs := by
  -- A left operand is not read as a whole expression: the loop goes on with it. So the induction
  -- carries the state in which the loop has it, for every floor.
  induction formula with
  | number literal => exact number_climbs literal
  | identifier name => exact identifier_climbs name
  | parenthesized body ih => exact parenthesized_climbs ih
  | signed sign body ih => exact signed_climbs sign ih
  | binary left operator right left_ih right_ih => exact binary_climbs operator left_ih right_ih

theorem outcome_expression {formula : Formula} (proper : formula.isProper = true) {gap : Gap}
    {inside : Bool} {s t : State} (ahead : Ahead s (formula.tokens gap) t)
    (ends : s.eof.kind = .eof) (closes : t.Closes) (stops : t.Stops inside .expression) :
    outcome (expression inside) s = .ok (formula.element gap, t) := by
  rw [expression, outcome_get_bind]
  exact Climbs.complete formula.climbs ahead ends (Nat.lt_succ_self _) closes (.of_isProper proper)
    stops

end Formula

section

variable {t : State} (ends : t.eof.kind = .eof) (done : t.rest = [])
include ends done

/-! At the end of the text every operand and every operation ends. -/

theorem State.closes_of_done : t.Closes := by
  rw [State.Closes, State.currentKind_of_done ends done]
  decide

private theorem State.stops_of_done (inside : Bool) (floor : Precedence) :
    t.Stops inside floor := by
  refine Or.inr (Or.inl ?_)
  simp [State.currentKind_of_done ends done, Precedence.ofBinary?]

end

theorem outcome_expression_of_climb {inside : Bool} {element : Element} {s t : State}
    (ends : t.eof.kind = .eof) (done : t.rest = [])
    (climbed : outcome (climb (expressionWithin s.rest.length) inside .expression) s =
      outcome (repeatRead (binaryStep (expressionWithin s.rest.length) inside .expression) element)
        t) : outcome (expression inside) s = .ok (element, t) := by
  rw [expression, outcome_get_bind, expressionWithin, climbed]
  exact outcome_repeat_stop (outcome_binaryStep_of_stops (State.stops_of_done ends done _ _))

section

variable {block : Parse Element} {inside : Bool} {scope : Scope} {s t : State}

def State.Unreserved (state : State) : Prop :=
  ∀ word ∈ Word.reserved, state.isAtWord word = false

theorem State.Unreserved.not_isAtTerminator (unreserved : s.Unreserved) :
    s.isAtTerminator = false := by
  have reserved : ∀ word ∈ Word.terminators, word ∈ Word.reserved := by decide
  rw [State.isAtTerminator, List.any_eq_false]
  intro word member
  simp [unreserved word (reserved word member)]

theorem outcome_statement_of_unreserved (unreserved : s.Unreserved)
    (inner : s.isAtSeparator = false) :
    outcome (statement block inside) s = outcome (expressionStatement inside) s := by
  have other : ∀ word ∈ Word.reserved, s.isAtWord word = false := unreserved
  rw [statement, outcome_get_bind]
  rw [other "function" (by decide), other "classdef" (by decide), other "switch" (by decide),
    other "while" (by decide), other "if" (by decide), other "for" (by decide),
    other "parfor" (by decide), other "try" (by decide), inner]
  rfl

theorem outcome_statementStep_of_statement {statements : List Element} {element : Element}
    (notEnd : s.isAtEnd = false) (goesOn : s.isAtTerminator = false)
    (starts : s.isAtAny expressionFirst = true)
    (read : outcome (statement block inside) s = .ok (element, t))
    (shorter : t.rest.length < s.rest.length) :
    outcome (statementStep block inside scope statements) s =
      .ok (some (statements ++ [element]), t) := by
  have one : outcome (progressingParse .identifier (statement block inside)) s =
      .ok ([element], t) := by
    rw [progressingParse, outcome_get_bind, outcome_bind_of_ok read, outcome_get_bind,
      if_neg (by omega)]
    exact outcome_pure _ _
  unfold statementStep
  rw [outcome_get_bind]
  simp only [notEnd, goesOn, starts, Bool.false_eq_true, if_false, Bool.not_true, Bool.and_false]
  exact outcome_bind_of_ok one

private theorem outcome_expressionStatement_of_done {element : Element}
    (read : outcome (expression inside) s = .ok (element, t)) (ends : t.eof.kind = .eof)
    (done : t.rest = []) :
    outcome (expressionStatement inside) s =
      .ok (.node .expressionStatement [some element, none] [], t) := by
  have separator : outcome eatSeparator t = .ok (none, t) := by
    apply outcome_eatIf_of_false
    simp [State.isAtSeparator_of_done ends done]
  rw [expressionStatement, outcome_bind_of_ok read, outcome_bind_of_ok separator]
  rfl

theorem outcome_scriptStatements_of_expression {depth : Nat} {element : Element}
    (unreserved : s.Unreserved) (inner : s.isAtSeparator = false)
    (starts : s.isAtAny expressionFirst = true)
    (read : outcome (expression inside) s = .ok (element, t)) (ends : t.eof.kind = .eof)
    (done : t.rest = []) (shorter : t.rest.length < s.rest.length) :
    outcome (scriptStatements inside depth) s =
      .ok ([.node .expressionStatement [some element, none] []], t) := by
  have notEnd : s.isAtEnd = false := by
    rw [State.isAtEnd, State.isAt]
    revert starts
    rw [State.isAtAny]
    cases s.currentKind <;> decide
  have same : t.eof = s.eof :=
    (Forward.moves (f := expression inside) s _ _ read).eof
  have round : outcome (statementStep (blockWithin inside depth) inside .script []) s =
      .ok (some [.node .expressionStatement [some element, none] []], t) := by
    apply outcome_statementStep_of_statement notEnd unreserved.not_isAtTerminator starts ?_ shorter
    rw [outcome_statement_of_unreserved unreserved inner]
    exact outcome_expressionStatement_of_done read ends done
  have steady := Steady.statementStep (blockWithin inside depth) inside .script
  have stop := steady.stops [.node .expressionStatement [some element, none] []] t ends done
  exact (outcome_repeat_step steady (same ▸ ends) round).trans (outcome_repeat_stop stop)

end

/-- A text whose tokens are all of one expression is parsed to a statement of its own, and nothing
is reported. -/
theorem parse_of_expression {text : List Char} {stream : TokenStream}
    (lexed : tokenize text = .ok stream) (eof : stream.eof.token = Token.endOfText)
    (silent : stream.diagnostics = []) {options : Options} {tokens : List Token} {element : Element}
    (same : stream.tokens.map (·.token) = tokens)
    (read : ∀ s t : State, Ahead s tokens t → s.eof.kind = .eof → t.rest = [] →
      outcome (scriptStatements options.insideBrackets (s.rest.length + 1)) s =
        .ok ([.node .expressionStatement [some element, none] []], t)) (name : Option String) :
    Tree.parse text options name = .ok ⟨.file [some (.node .expressionStatement
      [some element, none] [])] Token.endOfText, [], name⟩ := by
  obtain ⟨t, used, finished⟩ := Ahead.of_rest (State.ofStream stream)
  have ahead : Ahead (State.ofStream stream) tokens t := same ▸ used
  have ends : (State.ofStream stream).eof.kind = .eof := by
    show stream.eof.token.kind = .eof
    rw [eof]
    rfl
  have found : t.diagnostics = [] := used.diagnostics
  have script := read _ t ahead ends finished
  rw [Tree.parse_of_tokens lexed]
  have count : (State.ofStream stream).rest.length = stream.tokens.length := rfl
  rw [count] at script
  simp only [script, Except.map, eof, silent, found]
  rfl

end MatrixScript.Grammar

namespace MatrixScript.Grammar.Formula

private theorem outcome_scriptStatements {formula : Formula} (proper : formula.isProper = true)
    {inside : Bool} {depth : Nat} {s t : State} (ahead : Ahead s (formula.tokens .none) t)
    (ends : s.eof.kind = .eof) (done : t.rest = []) :
    outcome (scriptStatements inside depth) s =
      .ok ([.node .expressionStatement [some (formula.element .none), none] []], t) := by
  obtain ⟨kind, unreserved⟩ := ahead_starts ahead
  have last := ahead.ends ends
  have read : outcome (expression inside) s = .ok (formula.element .none, t) :=
    outcome_expression proper ahead ends (State.closes_of_done last done)
      (State.stops_of_done last done inside .expression)
  have more : formula.tokens .none ≠ [] := by
    obtain ⟨lexeme, rest, starts, -⟩ := formula.lexemes_starts
    rw [tokens, written, starts]
    cases rest <;> simp [Written.spaced]
  have kinds : s.isAtSeparator = false ∧ s.isAtAny expressionFirst = true := by
    rw [State.isAtSeparator, State.isAt, State.isAt, State.isAtAny]
    revert kind
    cases s.currentKind <;> decide
  have shorter : t.rest.length < s.rest.length := by
    have length := ahead.length
    have some := List.length_pos_iff.mpr more
    omega
  exact outcome_scriptStatements_of_expression unreserved kinds.1 kinds.2 read last done shorter

/-- A formula that needs no further parentheses is parsed back from its text. -/
theorem parse_text (formula : Formula) (proper : formula.isProper = true) (options : Options)
    (name : Option String) :
    Tree.parse formula.text options name = .ok ⟨.file [some (.node .expressionStatement
      [some (formula.element .none), none] [])] Token.endOfText, [], name⟩ := by
  have ahead : (Lexer.start formula.text).rest =
      Written.textOf (formula.written .none) ++ [] := by
    rw [textOf_written, List.append_nil]
    rfl
  obtain ⟨later, reads, done, follows⟩ := formula.reads ahead (Or.inl rfl) rfl
  have closed : later.context.brackets = [] := (follows.within (by decide)).1
  obtain ⟨stream, lexed, tokens, eof, silent⟩ := reads.tokenize done closed
    formula.written_plain
  exact parse_of_expression lexed eof silent tokens
    (fun s t => outcome_scriptStatements proper) name

/-- A power under a sign, with a sign in its exponent, and a range in parentheses. -/
theorem parse_text_signs :
    ∃ formula : Formula, formula.isProper = true ∧
      formula.text = "- 2 ^ ~ 3 + ( 4.5 : 1e2 )".toList ∧
      Tree.parse formula.text {} none = .ok ⟨.file [some (.node .expressionStatement
        [some (formula.element .none), none] [])] Token.endOfText, [], none⟩ := by
  let two : Formula := .number ⟨⟨['2'], none, none, none⟩, rfl⟩
  let three : Formula := .number ⟨⟨['3'], none, none, none⟩, rfl⟩
  let half : Formula := .number ⟨⟨['4'], some ['5'], none, none⟩, rfl⟩
  let hundred : Formula := .number ⟨⟨['1'], none, some ⟨'e', none, ['2']⟩, none⟩, rfl⟩
  let power : Formula := .binary two ⟨.caret, rfl⟩ (.signed ⟨.tilde, by decide⟩ three)
  let range : Formula := .parenthesized (.binary half ⟨.colon, rfl⟩ hundred)
  refine ⟨.binary (.signed ⟨.minus, by decide⟩ power) ⟨.plus, rfl⟩ range, rfl, rfl, ?_⟩
  exact parse_text _ rfl {} none

end MatrixScript.Grammar.Formula
