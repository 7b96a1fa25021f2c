import MatrixScript.Proofs.Grammar.Matrix
import MatrixScript.Proofs.Grammar.Printing

/-!
The items of a matrix are read from their tokens.

White space does not separate within an item. So an operand is read with its brackets, and a sign
with its operand, up to a token of which `State.Parted` says that it goes on with neither.
-/

set_option autoImplicit false

namespace MatrixScript.Grammar

def Operand.first : List Kind := [.numberLiteral, .identifier, .openParenthesis, .openBrace]

def Item.first : List Kind := .plus :: .minus :: Operand.first

/-- Whether an item can start at the current token: an operand, or a sign directly in front of
one. -/
def State.StartsItem (state : State) : Prop :=
  state.currentKind ∈ Operand.first ∨
    (state.currentKind = .plus ∨ state.currentKind = .minus) ∧
      state.current.token.trailing.isEmpty = true

theorem State.StartsItem.kind {state : State} (starts : state.StartsItem) :
    state.currentKind ∈ Item.first := by
  rcases starts with operand | ⟨sign, -⟩
  · exact List.mem_cons_of_mem _ (List.mem_cons_of_mem _ operand)
  · rcases sign with kind | kind
    · rw [kind]
      decide
    · rw [kind]
      decide

def itemFollow : List Kind :=
  [.plus, .minus, .comma, .semicolon, .closeSquareBracket, .closeBrace, .eof, .numberLiteral,
    .identifier, .openParenthesis, .openBrace]

/-- Whether an item ends before the current token: a bracket there does not belong to it. -/
structure State.Parted (state : State) (inside : Bool) : Prop where
  follows : state.currentKind ∈ itemFollow
  apart : state.currentKind = .openParenthesis ∨ state.currentKind = .openBrace →
    state.previousEndsLine = true ∨ inside = true ∧ state.previousHasTrailing = true

theorem State.Parted.of_kind {state : State} {inside : Bool}
    (kind : state.currentKind ∈ [Kind.plus, .minus, .comma, .semicolon, .closeSquareBracket,
      .closeBrace, .eof]) : state.Parted inside := by
  constructor
  · revert kind
    cases state.currentKind <;> decide
  · rintro (other | other)
    · simp [other] at kind
    · simp [other] at kind

namespace State.Parted

variable {inner : Inner} {inside : Bool} {left : Element} {s t : State}

private theorem stops (parted : t.Parted inside) : t.Stops inside .additive := by
  have known : Precedence.ofBinary? t.currentKind = none ∨
      Precedence.ofBinary? t.currentKind = some .additive := by
    have follows := parted.follows
    revert follows
    cases t.currentKind <;> decide
  refine Or.inr (Or.inl fun precedence found => ?_)
  rcases known with none | additive
  · simp [none] at found
  · rw [additive, Option.some.injEq] at found
    exact Nat.le_of_eq (congrArg Precedence.strength found.symm)

private theorem outcome_suffixStep (parted : t.Parted inside) :
    outcome (suffixStep inner inside left) t = .ok (none, t) := by
  by_cases bracket : t.currentKind = .openParenthesis ∨ t.currentKind = .openBrace
  · rw [suffixStep, outcome_get_bind]
    rcases parted.apart bracket with ended | ⟨rfl, separated⟩
    · rw [if_pos ended]
      exact outcome_pure _ _
    · rcases bracket with kind | kind
      · simp only [kind, separated, Bool.and_self, if_true]
        split <;> exact outcome_pure _ _
      · simp only [kind, separated, Bool.and_self, if_true]
        split <;> exact outcome_pure _ _
  · have closes : t.currentKind ∉ suffixFirst := by
      have follows := parted.follows
      revert follows bracket
      cases t.currentKind <;> decide
    exact outcome_suffixStep_of_closes closes

private theorem outcome_suffixed (parted : t.Parted inside)
    (term : outcome (Grammar.term inner inside) s = .ok (left, t)) :
    outcome (suffixed inner inside) s = .ok (left, t) := by
  have bare : t.isAt .unquotedStringLiteral = false := by
    have follows := parted.follows
    rw [State.isAt]
    revert follows
    cases t.currentKind <;> decide
  rw [suffixed, outcome_bind_of_ok term, outcome_get_bind]
  simp only [bare, Bool.and_false]
  exact outcome_repeat_stop parted.outcome_suffixStep

end State.Parted

section

variable {close : Kind} {item : List Element → Read (List Element)} {elements added : List Element}
  {s t : State}

theorem outcome_listStep_of_item (other : s.isAt close = false) (more : s.isAtEnd = false)
    (one : outcome (item elements) s = .ok (added, t)) :
    outcome (listStep close item elements) s = .ok (some (elements ++ added), t) := by
  rw [listStep, outcome_get_bind]
  simp only [other, more, Bool.false_or, Bool.false_eq_true, if_false]
  exact outcome_bind_of_ok one

theorem outcome_listStep_of_close (here : s.isAt close = true) :
    outcome (listStep close item elements) s = .ok (none, s) := by
  rw [listStep, outcome_get_bind]
  simp only [here, Bool.true_or, if_true]
  exact outcome_pure _ _

theorem outcome_progressing_of_shorter {expected : Kind} {read : Read Element} {element : Element}
    (one : outcome read s = .ok (element, t)) (shorter : t.rest.length < s.rest.length) :
    outcome (progressing expected read) s = .ok ([element], t) := by
  rw [progressing, outcome_get_bind, outcome_bind_of_ok one, outcome_get_bind,
    if_neg (by omega)]
  exact outcome_pure _ _

end

open Laid

section

variable {depth : Nat} {inside : Bool} {floor : Precedence} {trail : Trail} {s t : State}

private theorem outcome_number (literal : Literal)
    (ahead : Ahead s [Laid.token ⟨literal.lexeme, .none⟩] t)
    (ends : s.eof.kind = .eof) (short : s.rest.length < depth)
    (closed : t.currentKind = .closeParenthesis ∨ t.currentKind = .closeBrace) :
    outcome (expressionWithin depth inside .expression) s =
      .ok (numberElement literal .none, t) := by
  have written : Ahead s ((Formula.number literal).tokens .none) t := ahead
  have climbs : (Formula.number literal).Climbs := Formula.number_climbs literal
  apply climbs.complete written ends short
  · rcases closed with kind | kind
    · simp [State.Closes, kind, suffixFirst]
    · simp [State.Closes, kind, suffixFirst]
  · exact .of_isProper rfl
  · refine Or.inr (Or.inl fun precedence known => ?_)
    rcases closed with kind | kind
    · simp [kind, Precedence.ofBinary?] at known
    · simp [kind, Precedence.ofBinary?] at known

private theorem outcome_progressing_number {close : Kind} (literal : Literal)
    (ahead : Ahead s [Laid.token ⟨literal.lexeme, .none⟩] t) (ends : s.eof.kind = .eof)
    (short : s.rest.length < depth)
    (closed : t.currentKind = .closeParenthesis ∨ t.currentKind = .closeBrace) :
    outcome (progressing close (expressionWithin depth inside .expression)) s =
      .ok ([numberElement literal .none], t) := by
  apply outcome_progressing_of_shorter (outcome_number literal ahead ends short closed)
  rw [ahead.length_single]
  exact Nat.lt_succ_self _

private theorem outcome_listUntil_number {close : Kind}
    {item : List Element → Read (List Element)} [∀ elements, Forward (item elements)]
    (uses : ∀ elements s, s.eof.kind = .eof → s.rest ≠ [] → Uses (item elements) s)
    (literal : Literal) (ahead : Ahead s [Laid.token ⟨literal.lexeme, .none⟩] t)
    (ends : s.eof.kind = .eof) (short : s.rest.length < depth)
    (closed : close = .closeParenthesis ∨ close = .closeBrace) (after : t.currentKind = close)
    (same : outcome (item []) s =
      outcome (progressing close (expressionWithin depth inside .expression)) s) :
    outcome (listUntil close item) s = .ok (.list [numberElement literal .none], t) := by
  have kind : s.currentKind = .numberLiteral := ahead.currentKind
  have one : outcome (item []) s = .ok ([numberElement literal .none], t) :=
    same.trans (outcome_progressing_number literal ahead ends short (after ▸ closed))
  have other : s.isAt close = false := by
    rw [State.isAt, kind]
    rcases closed with rfl | rfl <;> rfl
  have more : s.isAtEnd = false := by
    rw [State.isAtEnd, State.isAt, kind]
    rfl
  have round := outcome_listStep_of_item other more one
  have stop : outcome (listStep close item [numberElement literal .none]) t = .ok (none, t) :=
    outcome_listStep_of_close (by simp [State.isAt, after])
  have loop : outcome (repeatRead (listStep close item) []) s =
      .ok ([numberElement literal .none], t) :=
    (outcome_repeat_step (Steady.listStep uses) ends round).trans (outcome_repeat_stop stop)
  rw [listUntil, outcome_bind_of_ok loop]
  exact outcome_pure _ _

theorem Ahead.enclosed {opening closing : Kind} {row : List Laid}
    (ahead : Ahead s (tokensOf (enclosed opening closing row trail)) t) :
    ∃ u v, outcome Grammar.advance s = .ok (Laid.token ⟨.fixed opening, .none⟩, u) ∧
      Ahead u (tokensOf row) v ∧ u.eof = s.eof ∧ u.rest.length < s.rest.length ∧
      v.currentKind = closing ∧
      outcome (expect closing) v = .ok (Laid.token ⟨.fixed closing, trail⟩, t) := by
  obtain ⟨u, opened, first, inside⟩ := ahead.advance
  rw [List.map_append] at inside
  obtain ⟨v, within, last⟩ := inside.append
  obtain ⟨w, shut, -, done⟩ := last.advance
  cases done
  have shorter := first.length_single
  have after : v.currentKind = closing := last.currentKind
  have here : v.isAt closing = true := by simp [State.isAt, after]
  exact ⟨u, v, opened, within, first.eof, by omega, after, (outcome_expect_of_true here).trans shut⟩

private theorem outcome_arguments {opening closing : Kind}
    (closed : closing = .closeParenthesis ∨ closing = .closeBrace) (literal : Literal)
    (ahead : Ahead s (tokensOf (Laid.enclosed opening closing [⟨literal.lexeme, .none⟩] trail)) t)
    (ends : s.eof.kind = .eof) (short : s.rest.length ≤ depth) :
    outcome (arguments (expressionWithin depth) closing) s =
      .ok ([leaf (.fixed opening) .none, .list [numberElement literal .none],
        leaf (.fixed closing) trail], t) := by
  obtain ⟨u, v, opened, number, same, shorter, after, shut⟩ := ahead.enclosed
  have kind : u.currentKind = .numberLiteral := number.currentKind
  have item : outcome (argumentItem (expressionWithin depth) closing []) u =
      outcome (progressing closing (expressionWithin depth false .expression)) u := by
    have other : u.isAt .comma = false := by simp [State.isAt, kind]
    have starts : u.isAtAny expressionFirst = true := by
      rw [State.isAtAny, kind]
      decide
    rw [argumentItem, outcome_get_bind]
    simp only [other, starts, Bool.false_eq_true, if_false, if_true, List.getLast?_nil,
      Option.any_none]
    rfl
  have list : outcome (listUntil closing (argumentItem (expressionWithin depth) closing)) u =
      .ok (.list [numberElement literal .none], v) :=
    outcome_listUntil_number (fun elements s _ more => Uses.argumentItem _ more _ _)
      literal number (same ▸ ends) (by omega) closed after item
  rw [arguments, outcome_bind_of_ok opened, outcome_bind_of_ok list, outcome_bind_of_ok shut]
  rfl

private theorem outcome_cell (literal : Literal)
    (ahead : Ahead s (tokensOf ((Operand.cell literal).laid trail)) t) (ends : s.eof.kind = .eof)
    (short : s.rest.length ≤ depth) :
    outcome (matrix (expressionWithin depth) .cellArrayLiteralExpression .closeBrace) s =
      .ok ((Operand.cell literal).element trail, t) := by
  obtain ⟨u, v, opened, number, same, shorter, after, shut⟩ := ahead.enclosed
  have kind : u.currentKind = .numberLiteral := number.currentKind
  have item : outcome (matrixItem (expressionWithin depth) .closeBrace) u =
      outcome (progressing .closeBrace (expressionWithin depth true .expression)) u := by
    have other : u.isAtSeparator = false := by simp [State.isAtSeparator, State.isAt, kind]
    have starts : u.isAtAny expressionFirst = true := by
      rw [State.isAtAny, kind]
      decide
    rw [matrixItem, outcome_get_bind]
    simp only [other, starts, Bool.false_eq_true, if_false, if_true]
  have list := outcome_listUntil_number (fun elements s _ more => Uses.matrixItem _ more _)
    literal number (same ▸ ends) (by omega) (Or.inr rfl) after item
  rw [matrix, outcome_bind_of_ok opened, outcome_bind_of_ok list, outcome_bind_of_ok shut]
  rfl

private theorem outcome_parenthesized (literal : Literal)
    (ahead : Ahead s (tokensOf ((Operand.parenthesized literal).laid trail)) t)
    (ends : s.eof.kind = .eof) (short : s.rest.length ≤ depth) :
    outcome (Grammar.parenthesized (expressionWithin depth)) s =
      .ok ((Operand.parenthesized literal).element trail, t) := by
  obtain ⟨u, v, opened, number, same, shorter, after, shut⟩ := ahead.enclosed
  have body : outcome (expressionWithin depth false .expression) u =
      .ok (numberElement literal .none, v) :=
    outcome_number literal number (same ▸ ends) (by omega) (Or.inl after)
  rw [Grammar.parenthesized, outcome_bind_of_ok opened, outcome_bind_of_ok body,
    outcome_bind_of_ok shut]
  rfl

private theorem outcome_suffixed_of_brackets {opening closing kind : Kind} (name : Identifier)
    (literal : Literal)
    (known : opening = .openParenthesis ∧ closing = .closeParenthesis ∧
        kind = .functionCallExpression ∨
      opening = .openBrace ∧ closing = .closeBrace ∧ kind = .cellArrayElementAccessExpression)
    (ahead : Ahead s (tokensOf (⟨name.lexeme, .none⟩ ::
      Laid.enclosed opening closing [⟨literal.lexeme, .none⟩] trail)) t)
    (ends : s.eof.kind = .eof) (short : s.rest.length ≤ depth) (parted : t.Parted inside) :
    outcome (suffixed (expressionWithin depth) inside) s =
      .ok (.ofChildren kind [identifierElement name .none, leaf (.fixed opening) .none,
        .list [numberElement literal .none], leaf (.fixed closing) trail], t) := by
  have start : s.currentKind = .identifier := ahead.currentKind
  obtain ⟨u, named, first, brackets⟩ := ahead.advance
  have shorter := first.length_single
  have next : u.currentKind = opening := brackets.currentKind
  have previous : u.previous = some (Laid.token ⟨name.lexeme, .none⟩) := first.previous rfl
  have sameLine : u.previousEndsLine = false := by
    simp [State.previousEndsLine, previous, Trail.endsLine]
  have tight : u.previousHasTrailing = false := by
    simp [State.previousHasTrailing, previous, Trail.isNone]
  have subject : outcome (term (expressionWithin depth) inside) s =
      .ok (identifierElement name .none, u) := by
    rw [term, outcome_get_bind, start]
    exact outcome_bind_of_ok named
  have closed : closing = .closeParenthesis ∨ closing = .closeBrace :=
    known.imp (·.2.1) (·.2.1)
  have inner := outcome_arguments closed literal brackets (first.ends ends)
    (Nat.le_of_succ_le (shorter ▸ short))
  have round : outcome (suffixStep (expressionWithin depth) inside (identifierElement name .none))
      u = .ok (some (.ofChildren kind [identifierElement name .none, leaf (.fixed opening) .none,
        .list [numberElement literal .none], leaf (.fixed closing) trail]), t) := by
    rw [suffixStep, outcome_get_bind, sameLine]
    simp only [tight, Bool.and_false, Bool.false_eq_true, if_false]
    rcases known with ⟨rfl, rfl, rfl⟩ | ⟨rfl, rfl, rfl⟩
    · rw [next]
      exact outcome_bind_of_ok inner
    · rw [next]
      exact outcome_bind_of_ok inner
  have bare : u.isAt .unquotedStringLiteral = false := by
    rw [State.isAt, next]
    rcases known with ⟨rfl, -⟩ | ⟨rfl, -⟩ <;> rfl
  rw [suffixed, outcome_bind_of_ok subject, outcome_get_bind]
  simp only [bare, Bool.and_false]
  exact (outcome_repeat_step (Steady.suffixStep _ _) (first.ends ends) round).trans
    (outcome_repeat_stop parted.outcome_suffixStep)

namespace Operand

private theorem ahead_starts {operand : Operand}
    (ahead : Ahead s (tokensOf (operand.laid trail)) t) :
    s.currentKind ∈ first := by
  cases operand with
  | number literal => exact ahead.currentKind ▸ (by decide : Kind.numberLiteral ∈ first)
  | identifier name => exact ahead.currentKind ▸ (by decide : Kind.identifier ∈ first)
  | call name argument => exact ahead.currentKind ▸ (by decide : Kind.identifier ∈ first)
  | cellAccess name index => exact ahead.currentKind ▸ (by decide : Kind.identifier ∈ first)
  | parenthesized body => exact ahead.currentKind ▸ (by decide : Kind.openParenthesis ∈ first)
  | cell content => exact ahead.currentKind ▸ (by decide : Kind.openBrace ∈ first)

private theorem outcome_suffixed (operand : Operand)
    (ahead : Ahead s (tokensOf (operand.laid trail)) t)
    (ends : s.eof.kind = .eof) (short : s.rest.length ≤ depth) (parted : t.Parted inside) :
    outcome (suffixed (expressionWithin depth) inside) s = .ok (operand.element trail, t) := by
  cases operand with
  | number literal =>
    have kind : s.currentKind = .numberLiteral := ahead.currentKind
    obtain ⟨u, used, -, done⟩ := ahead.advance
    cases done
    apply parted.outcome_suffixed
    rw [term, outcome_get_bind, kind]
    exact outcome_bind_of_ok used
  | identifier name =>
    have kind : s.currentKind = .identifier := ahead.currentKind
    obtain ⟨u, used, -, done⟩ := ahead.advance
    cases done
    apply parted.outcome_suffixed
    rw [term, outcome_get_bind, kind]
    exact outcome_bind_of_ok used
  | call name argument =>
    exact outcome_suffixed_of_brackets name argument (Or.inl ⟨rfl, rfl, rfl⟩) ahead ends short
      parted
  | cellAccess name index =>
    exact outcome_suffixed_of_brackets name index (Or.inr ⟨rfl, rfl, rfl⟩) ahead ends short parted
  | parenthesized body =>
    have kind : s.currentKind = .openParenthesis := ahead.currentKind
    apply parted.outcome_suffixed
    rw [term, outcome_get_bind, kind]
    exact outcome_parenthesized body ahead ends short
  | cell content =>
    have kind : s.currentKind = .openBrace := ahead.currentKind
    apply parted.outcome_suffixed
    rw [term, outcome_get_bind, kind]
    exact outcome_cell content ahead ends short

end Operand

namespace Item

theorem ahead_starts {item : Item} (ahead : Ahead s (tokensOf (item.laid trail)) t) :
    s.StartsItem := by
  obtain ⟨sign, operand⟩ := item
  cases sign with
  | none => exact Or.inl (Operand.ahead_starts ahead)
  | some sign =>
    have kind : s.currentKind = sign.kind := ahead.currentKind
    have current : s.current.token = Laid.token ⟨sign.lexeme, .none⟩ := ahead.current
    refine Or.inr ⟨?_, by simp [current, Trail.isNone]⟩
    rw [kind]
    cases sign <;> decide

/-- The loop over operators starts with an item, at a floor under that of a sign. -/
theorem outcome_climb (item : Item) (ahead : Ahead s (tokensOf (item.laid trail)) t)
    (ends : s.eof.kind = .eof) (short : s.rest.length ≤ depth) (parted : t.Parted inside)
    (low : Precedence.ofSigned floor = .unary) :
    outcome (climb (expressionWithin depth) inside floor) s =
      outcome (repeatRead (binaryStep (expressionWithin depth) inside floor) (item.element trail))
        t := by
  obtain ⟨sign, operand⟩ := item
  cases sign with
  | none =>
    have starts := Operand.ahead_starts ahead
    apply Formula.outcome_climb_of_suffixed
    · revert starts
      cases s.currentKind <;> decide
    · exact operand.outcome_suffixed ahead ends short parted
  | some sign =>
    obtain ⟨u, used, one, within⟩ := ahead.advance
    have shorter := one.length_single
    have starts := Operand.ahead_starts within
    -- The operand has a level of its own, which ends where no operator above the sign follows.
    obtain ⟨depth, rfl⟩ : ∃ inner, depth = inner + 1 := ⟨depth - 1, by omega⟩
    have read : outcome (suffixed (expressionWithin depth) inside) u =
        .ok (operand.element trail, t) :=
      operand.outcome_suffixed within (one.ends ends) (by omega) parted
    have body : outcome (expressionWithin (depth + 1) inside .unary) u =
        .ok (operand.element trail, t) := by
      rw [expressionWithin, Formula.outcome_climb_of_suffixed ?_ read]
      · exact outcome_repeat_stop (outcome_binaryStep_of_stops (parted.stops.mono (by decide)))
      · revert starts
        cases u.currentKind <;> decide
    have sameLine : u.previousEndsLine = false := by
      simp [State.previousEndsLine, one.previous rfl, Trail.endsLine]
    have given : outcome (Grammar.operand (expressionWithin (depth + 1)) inside .unary) u =
        .ok (operand.element trail, t) := by
      rw [Grammar.operand, outcome_get_bind]
      simpa [sameLine] using body
    have signed : outcome (Grammar.signed (expressionWithin (depth + 1)) inside floor) s =
        .ok (Item.element ⟨some sign, operand⟩ trail, t) := by
      have kind : s.currentKind = sign.kind := ahead.currentKind
      have isSign : s.currentKind ∈ [Kind.plus, .minus, .tilde] := by
        rw [kind]
        cases sign <;> decide
      have notTilde : ((Laid.token ⟨sign.lexeme, .none⟩).kind == .tilde) = false := by
        cases sign <;> rfl
      rw [Formula.signed_of_isSign isSign, prefixed, outcome_bind_of_ok used, outcome_get_bind]
      simp only [notTilde, Bool.false_and, Bool.false_eq_true, if_false, low]
      exact outcome_bind_of_ok given
    exact outcome_bind_of_ok signed

theorem outcome_right (item : Item) (ahead : Ahead s (tokensOf (item.laid trail)) t)
    (ends : s.eof.kind = .eof) (short : s.rest.length < depth) (parted : t.Parted inside) :
    outcome (expressionWithin depth inside .additive) s = .ok (item.element trail, t) := by
  obtain ⟨depth, rfl⟩ : ∃ inner, depth = inner + 1 := ⟨depth - 1, by omega⟩
  rw [expressionWithin, item.outcome_climb ahead ends (Nat.le_of_lt_succ short) parted (by decide)]
  exact outcome_repeat_stop (outcome_binaryStep_of_stops parted.stops)

end Item

end

end MatrixScript.Grammar
