import MatrixScript.Proofs.Grammar.MatrixItems
import MatrixScript.Proofs.Tree.Parts

/-!
Matrices are read from their text.

Between brackets white space in front of an operand, or of a sign directly in front of one, ends an
element; a sign with white space on both sides or on none joins two items. `Entry.outcome_climb`
follows the operations of an entry to the left, and `Contents.outcome_repeat` the entries of a
matrix to the right.
-/

set_option autoImplicit false

namespace MatrixScript.Grammar

open Laid

/-- Whether an element of a matrix ends before the current token. -/
structure State.Divided (state : State) : Prop where
  parted : state.Parted true
  stops : state.Stops true .expression

private theorem State.Divided.of_kind {state : State}
    (kind : state.currentKind ∈ [Kind.comma, .semicolon, .closeSquareBracket, .closeBrace]) :
    state.Divided := by
  have other : Precedence.ofBinary? state.currentKind = none := by
    revert kind
    cases state.currentKind <;> decide
  constructor
  · apply State.Parted.of_kind
    revert kind
    cases state.currentKind <;> decide
  · exact Or.inr (Or.inl (by simp [other]))

private theorem State.Divided.of_starts {state : State}
    (separated : state.previousHasTrailing = true)
    (starts : state.StartsItem) : state.Divided := by
  have follows : state.currentKind ∈ itemFollow := by
    have kind := starts.kind
    revert kind
    cases state.currentKind <;> decide
  refine ⟨⟨follows, fun _ => Or.inr ⟨rfl, separated⟩⟩, ?_⟩
  rcases starts with starts | ⟨starts, tight⟩
  · have other : Precedence.ofBinary? state.currentKind = none := by
      revert starts
      cases state.currentKind <;> decide
    exact Or.inr (Or.inl (by simp [other]))
  · refine Or.inr (Or.inr ?_)
    rcases starts with kind | kind
    · simp [State.startsSignedElement, State.isAt, kind, separated, tight]
    · simp [State.startsSignedElement, State.isAt, kind, separated, tight]

section

variable {depth : Nat} {inside : Bool} {floor : Precedence} {trail : Trail} {s t : State}

def Additive.operator (additive : Additive) : Operator :=
  ⟨additive.kind, by cases additive <;> rfl⟩

namespace Entry

private theorem ahead_starts {entry : Entry} (ahead : Ahead s (tokensOf (entry.laid trail)) t) :
    s.StartsItem := by
  induction entry generalizing trail t with
  | item only => exact only.ahead_starts ahead
  | joined left operator spacing right ih =>
    rw [laid, tokensOf_append] at ahead
    obtain ⟨u, before, -⟩ := ahead.append
    exact ih before

private theorem ahead_previous {entry : Entry} (ahead : Ahead s (tokensOf (entry.laid trail)) t) :
    ∃ lexeme, t.previous = some (Laid.token ⟨lexeme, trail⟩) := by
  obtain ⟨front, lexeme, ends⟩ := entry.laid_ends trail
  exact ⟨lexeme, ahead.previous (by simp [ends, tokensOf])⟩

/-- The loop over operators comes to an entry, whatever its operations. -/
theorem outcome_climb (entry : Entry) (ahead : Ahead s (tokensOf (entry.laid trail)) t)
    (ends : s.eof.kind = .eof) (short : s.rest.length ≤ depth) (parted : t.Parted inside) :
    outcome (climb (expressionWithin depth) inside .expression) s =
      outcome (repeatRead (binaryStep (expressionWithin depth) inside .expression)
        (entry.element trail)) t := by
  induction entry generalizing trail t with
  | item only => exact only.outcome_climb ahead ends short parted (by decide)
  | joined left operator spacing right ih =>
    rw [laid, tokensOf_append] at ahead
    obtain ⟨u, before, operation⟩ := ahead.append
    obtain ⟨v, used, one, after⟩ := operation.advance
    have kind : u.currentKind = operator.kind := operation.currentKind
    have shorter := before.length
    have shorter' := one.length_single
    have leftParted : u.Parted inside := by
      apply State.Parted.of_kind
      rw [kind]
      cases operator <;> decide
    have rightSide : outcome (expressionWithin depth inside .additive) v =
        .ok (right.element trail, t) :=
      right.outcome_right after (one.ends (before.ends ends)) (by omega) parted
    have round : outcome (binaryStep (expressionWithin depth) inside .expression
        (left.element spacing.before)) u =
        .ok (some ((joined left operator spacing right).element trail), t) := by
      obtain ⟨lexeme, previous⟩ := left.ahead_previous before
      have sameLine : u.previousEndsLine = false := by
        rw [State.previousEndsLine, previous]
        cases spacing <;> rfl
      have further : v.previousEndsLine = false := by
        rw [State.previousEndsLine, one.previous rfl]
        cases spacing <;> rfl
      have unsigned : u.startsSignedElement = false := by
        rw [State.startsSignedElement, State.previousHasTrailing, previous, operation.current]
        cases spacing <;> simp [Spacing.before, Spacing.after, Trail.isNone]
      have given : v.isAtAny emptyOperandFollow = false := by
        rw [State.isAtAny]
        have starts := (right.ahead_starts after).kind
        revert starts
        cases v.currentKind <;> decide
      have strength : operator.operator.precedence = .additive := by cases operator <;> rfl
      have result : operator.operator.resultKind = .binaryOperationExpression := by
        cases operator <;> rfl
      have exceeds : operator.operator.precedence.exceeds .expression = true := by
        rw [strength]
        rfl
      have step : outcome (binaryStep (expressionWithin depth) inside .expression
          (left.element spacing.before)) u = .ok (some (.ofChildren operator.operator.resultKind
            [left.element spacing.before, leaf operator.lexeme spacing.after,
              right.element trail]), t) :=
        Formula.outcome_binaryStep_of_operator sameLine kind exceeds used rfl unsigned further given
          (strength ▸ rightSide)
      rwa [result] at step
    rw [ih before leftParted]
    exact outcome_repeat_step (Steady.binaryStep _ _ _) (before.ends ends) round

private theorem outcome_whole (entry : Entry) (ahead : Ahead s (tokensOf (entry.laid trail)) t)
    (ends : s.eof.kind = .eof) (short : s.rest.length < depth) (divided : t.Divided) :
    outcome (expressionWithin depth true .expression) s = .ok (entry.element trail, t) := by
  obtain ⟨depth, rfl⟩ : ∃ inner, depth = inner + 1 := ⟨depth - 1, by omega⟩
  rw [expressionWithin, entry.outcome_climb ahead ends (Nat.le_of_lt_succ short) divided.parted]
  exact outcome_repeat_stop (outcome_binaryStep_of_stops divided.stops)

private theorem outcome_listStep (entry : Entry) {close : Kind}
    (closed : close = .closeSquareBracket ∨ close = .closeBrace) (elements : List Element)
    (ahead : Ahead s (tokensOf (entry.laid trail)) t) (ends : s.eof.kind = .eof)
    (short : s.rest.length < depth) (divided : t.Divided) :
    outcome (listStep close (fun _ => matrixItem (expressionWithin depth) close) elements) s =
      .ok (some (elements ++ [entry.element trail]), t) := by
  have kinds : s.isAt close = false ∧ s.isAtEnd = false ∧ s.isAtSeparator = false ∧
      s.isAtAny expressionFirst = true := by
    simp only [State.isAtEnd, State.isAtSeparator, State.isAt, State.isAtAny]
    have starts := (entry.ahead_starts ahead).kind
    revert starts
    rcases closed with rfl | rfl <;> cases s.currentKind <;> decide
  obtain ⟨other, more, inner, starts⟩ := kinds
  have shorter : t.rest.length < s.rest.length := by
    obtain ⟨front, lexeme, last⟩ := entry.laid_ends trail
    have length := ahead.length
    simp only [last, tokensOf, List.length_map, List.length_append, List.length_singleton] at length
    omega
  apply outcome_listStep_of_item other more
  rw [matrixItem, outcome_get_bind]
  simp only [inner, starts, Bool.false_eq_true, if_false, if_true]
  exact outcome_progressing_of_shorter (entry.outcome_whole ahead ends short divided) shorter

end Entry

private theorem outcome_listStep_of_separator {separator : Kind}
    (known : separator = .comma ∨ separator = .semicolon) {close : Kind}
    (closed : close = .closeSquareBracket ∨ close = .closeBrace) (elements : List Element)
    (ahead : Ahead s [Laid.token ⟨.fixed separator, trail⟩] t) :
    outcome (listStep close (fun _ => matrixItem (expressionWithin depth) close) elements) s =
      .ok (some (elements ++ [leaf (.fixed separator) trail]), t) := by
  have kind : s.currentKind = separator := ahead.currentKind
  obtain ⟨u, used, -, done⟩ := ahead.advance
  cases done
  have kinds : s.isAt close = false ∧ s.isAtEnd = false ∧ s.isAtSeparator = true := by
    simp only [State.isAtEnd, State.isAtSeparator, State.isAt, kind]
    rcases known with rfl | rfl <;> rcases closed with rfl | rfl <;> decide
  apply outcome_listStep_of_item kinds.1 kinds.2.1
  rw [matrixItem, outcome_get_bind, if_pos kinds.2.2]
  exact outcome_bind_of_ok used

/-- What parts two entries is passed, and a separator is added to the elements. -/
theorem Parting.outcome_repeat (parting : Parting) {close : Kind}
    (closed : close = .closeSquareBracket ∨ close = .closeBrace) (elements : List Element)
    (ahead : Ahead s (tokensOf parting.laid) t) (ends : s.eof.kind = .eof) :
    outcome (repeatRead (listStep close fun _ => matrixItem (expressionWithin depth) close)
      elements) s =
      outcome (repeatRead (listStep close fun _ => matrixItem (expressionWithin depth) close)
        (elements ++ parting.leaves)) t := by
  have steady : Steady (listStep close fun _ => matrixItem (expressionWithin depth) close) :=
    Steady.listStep fun _ _ _ more => Uses.matrixItem _ more _
  cases parting with
  | spaces stretch =>
    cases ahead
    simp [leaves, separator?]
  | lineFeed =>
    cases ahead
    simp [leaves, separator?]
  | comma =>
    exact outcome_repeat_step steady ends
      (outcome_listStep_of_separator (Or.inl rfl) closed elements ahead)
  | semicolon =>
    exact outcome_repeat_step steady ends
      (outcome_listStep_of_separator (Or.inr rfl) closed elements ahead)

namespace Contents

private theorem ahead_starts {entry : Entry} {parts : List (Parting × Entry)}
    (ahead : Ahead s (tokensOf (laidFrom entry parts)) t) :
    s.StartsItem := by
  cases parts with
  | nil => exact entry.ahead_starts ahead
  | cons part parts =>
    rw [laidFrom, tokensOf_append] at ahead
    obtain ⟨u, before, -⟩ := ahead.append
    exact entry.ahead_starts before

private theorem divided {entry next : Entry} {parting : Parting} {parts : List (Parting × Entry)}
    {u v : State} (before : Ahead s (tokensOf (entry.laid parting.trail)) u)
    (between : Ahead u (tokensOf parting.laid) v)
    (after : Ahead v (tokensOf (laidFrom next parts)) t) : u.Divided := by
  obtain ⟨lexeme, previous⟩ := entry.ahead_previous before
  cases parting with
  | spaces stretch =>
    cases between
    exact .of_starts (by rw [State.previousHasTrailing, previous]; rfl) (ahead_starts after)
  | lineFeed =>
    cases between
    exact .of_starts (by rw [State.previousHasTrailing, previous]; rfl) (ahead_starts after)
  | comma => exact .of_kind (between.currentKind ▸ (by decide))
  | semicolon => exact .of_kind (between.currentKind ▸ (by decide))

/-- The elements up to the closing bracket are the entries, with the separators in between. -/
theorem outcome_repeat {close : Kind} (closed : close = .closeSquareBracket ∨ close = .closeBrace)
    (entry : Entry) (parts : List (Parting × Entry)) (elements : List Element)
    (ahead : Ahead s (tokensOf (laidFrom entry parts)) t) (ends : s.eof.kind = .eof)
    (short : s.rest.length < depth) (here : t.currentKind = close) :
    outcome (repeatRead (listStep close fun _ => matrixItem (expressionWithin depth) close)
      elements) s = .ok (elements ++ childrenFrom entry parts, t) := by
  have steady : Steady (listStep close fun _ => matrixItem (expressionWithin depth) close) :=
    Steady.listStep fun _ _ _ more => Uses.matrixItem _ more _
  induction parts generalizing entry elements s with
  | nil =>
    have divided : t.Divided := by
      apply State.Divided.of_kind
      rw [here]
      rcases closed with rfl | rfl <;> decide
    have round := entry.outcome_listStep closed elements ahead ends short divided
    exact (outcome_repeat_step steady ends round).trans
      (outcome_repeat_stop (outcome_listStep_of_close (by simp [State.isAt, here])))
  | cons part parts ih =>
    obtain ⟨parting, next⟩ := part
    rw [laidFrom, tokensOf_append, tokensOf_append] at ahead
    obtain ⟨u, before, ahead⟩ := ahead.append
    obtain ⟨v, between, after⟩ := ahead.append
    have inside := before.ends ends
    have shorter := before.length
    have shorter' := between.length
    have round := entry.outcome_listStep closed elements before ends short
      (divided before between after)
    have rest := ih next (elements ++ [entry.element parting.trail] ++ parting.leaves) after
      (between.ends inside) (by omega)
    rw [childrenFrom, ← List.singleton_append, ← List.append_assoc, ← List.append_assoc]
    exact (outcome_repeat_step steady ends round).trans
      ((parting.outcome_repeat closed _ between inside).trans rest)

end Contents

private theorem Bracket.outcome_matrix (bracket : Bracket) (contents : Contents)
    (ahead : Ahead s
      (tokensOf (enclosed bracket.opening bracket.closing contents.laid trail)) t)
    (ends : s.eof.kind = .eof) (short : s.rest.length ≤ depth) :
    outcome (matrix (expressionWithin depth) bracket.kind bracket.closing) s =
      .ok (.ofChildren bracket.kind [leaf (.fixed bracket.opening) .none,
        .list (Contents.childrenFrom contents.first contents.rest),
        leaf (.fixed bracket.closing) trail], t) := by
  obtain ⟨u, v, opened, within, same, shorter, after, shut⟩ := ahead.enclosed
  have closed : bracket.closing = .closeSquareBracket ∨ bracket.closing = .closeBrace := by
    cases bracket <;> decide
  have loop := Contents.outcome_repeat closed contents.first contents.rest [] within (same ▸ ends)
    (Nat.lt_of_lt_of_le shorter short) after
  have list : outcome (listUntil bracket.closing fun _ =>
      matrixItem (expressionWithin depth) bracket.closing) u =
        .ok (.list (Contents.childrenFrom contents.first contents.rest), v) := by
    rw [listUntil, outcome_bind_of_ok loop]
    exact outcome_pure _ _
  rw [matrix, outcome_bind_of_ok opened, outcome_bind_of_ok list, outcome_bind_of_ok shut]
  rfl

end

private theorem State.parted_of_done {t : State} (ends : t.eof.kind = .eof) (done : t.rest = [])
    (inside : Bool) : t.Parted inside := by
  apply State.Parted.of_kind
  rw [State.currentKind_of_done ends done]
  decide

private theorem Ahead.unreserved {laid : Laid} {tokens : List Token} {s t : State}
    (ahead : Ahead s (laid.token :: tokens) t)
    (free : laid.lexeme.kind = .identifier → Word.isReserved laid.lexeme.text = false) :
    s.Unreserved := by
  intro word member
  rw [State.isAtWord, ahead.current, Laid.token_isWord]
  by_cases identifier : laid.lexeme.kind = .identifier
  · have other := free identifier
    simp only [Word.isReserved, List.any_eq_false, beq_iff_eq] at other
    simp [Ne.symm (other word member)]
  · simp [identifier]

namespace Bracket

private theorem tokenize_text (bracket : Bracket) (contents : Contents) :
    ∃ stream, tokenize (bracket.text contents) = .ok stream ∧
      stream.tokens.map (·.token) =
        tokensOf (enclosed bracket.opening bracket.closing contents.laid .none) ∧
      stream.eof.token = Token.endOfText ∧ stream.diagnostics = [] := by
  have opens : bracket.opening ∈ Lexeme.solitary := by cases bracket <;> decide
  have closes : bracket.closing ∈ Lexeme.solitary := by cases bracket <;> decide
  have stand : Stand (enclosed bracket.opening bracket.closing contents.laid .none) [] := by
    apply stand_enclosed opens closes (.of_absent fun _ => rfl)
    apply Contents.stand
    · exact (Lexeme.fixed_stands closes _).absent
    · exact Lexeme.fixed_ends closes _
  have text : textOf (enclosed bracket.opening bracket.closing contents.laid .none) =
      bracket.text contents := by
    have inner : textOf contents.laid = contents.text := Contents.textOf_laidFrom _ _
    cases bracket <;> simp [enclosed, inner, Bracket.text, opening, closing, Trail.text,
      Lexeme.fixed, Kind.fixedText?]
  rw [← text]
  exact tokenize_enclosed (by cases bracket <;> rfl) (Contents.level _ _) stand

private theorem outcome_scriptStatements (bracket : Bracket) (contents : Contents) {inside : Bool}
    {depth : Nat} {s t : State}
    (ahead : Ahead s
      (tokensOf (enclosed bracket.opening bracket.closing contents.laid .none)) t)
    (ends : s.eof.kind = .eof) (done : t.rest = []) :
    outcome (scriptStatements inside depth) s =
      .ok ([.node .expressionStatement [some (bracket.element contents), none] []], t) := by
  have kind : s.currentKind = bracket.opening := ahead.currentKind
  have last := ahead.ends ends
  have read : outcome (expression inside) s = .ok (bracket.element contents, t) := by
    apply outcome_expression_of_climb last done
    apply Formula.outcome_climb_of_term (State.closes_of_done last done)
    · rw [kind]
      cases bracket <;> decide
    · have whole := bracket.outcome_matrix contents ahead ends (Nat.le_refl _)
      rw [term, outcome_get_bind, kind]
      cases bracket <;> exact whole
  have length := ahead.length
  apply outcome_scriptStatements_of_expression _ _ _ read last done
  · simp only [enclosed, tokensOf, List.map_cons, List.length_cons] at length
    omega
  · apply ahead.unreserved
    cases bracket <;> simp [opening, Lexeme.fixed]
  · rw [State.isAtSeparator, State.isAt, State.isAt, kind]
    cases bracket <;> rfl
  · rw [State.isAtAny, kind]
    cases bracket <;> decide

private theorem hasList_elements (bracket : Bracket) (contents : Contents) {place : Located}
    (here : place.element = bracket.element contents) :
    place.HasList "elements" fun elements =>
      elements.map (·.element) = contents.elements ∧
        elements.map (·.kind) = contents.entries.map Entry.kind ∧
        elements.map (·.text?) = contents.entries.map fun entry => some entry.text := by
  have known : place.kind.fields.lookup "elements" = some (.list 1 .expression) := by
    rw [Located.kind, here]
    cases bracket <;> rfl
  have filled : place.element.slot? 1 =
      some (.list (Contents.childrenFrom contents.first contents.rest)) := by
    rw [here]
    rfl
  apply Located.hasList_of_filter known filled (Contents.filter_childrenFrom _ _)
  intro places same
  have kinds := Contents.map_elementsFrom (fun entry _ => entry.kind_element) contents.first
    contents.rest
  have texts := Contents.map_elementsFrom (fun entry _ => entry.text?_element) contents.first
    contents.rest
  rw [← same, List.map_map] at kinds texts
  exact ⟨same, kinds, texts⟩

end Bracket

namespace Item

private theorem tokenize_text (item : Item) :
    ∃ stream, tokenize item.text = .ok stream ∧
      stream.tokens.map (·.token) = tokensOf (item.laid .none) ∧
      stream.eof.token = Token.endOfText ∧ stream.diagnostics = [] := by
  have stand : Stand (item.laid .none) [] := item.stand (fun _ => rfl) Text.breaks_nil.ends
  have bare : ∀ laid ∈ item.laid .none, laid.trail.text = [] := by
    obtain ⟨_ | sign, operand⟩ := item <;> cases operand <;>
      simp [Item.laid, Operand.laid, enclosed, Trail.text]
  have text : textOf (item.laid .none) = item.text := by
    rw [item.textOf_laid]
    exact List.append_nil _
  rw [← text]
  exact tokenize_level stand item.level bare

private theorem outcome_scriptStatements {item : Item} (free : item.IsFree) {inside : Bool}
    {depth : Nat} {s t : State} (ahead : Ahead s (tokensOf (item.laid .none)) t)
    (ends : s.eof.kind = .eof) (done : t.rest = []) :
    outcome (scriptStatements inside depth) s =
      .ok ([.node .expressionStatement [some (item.element .none), none] []], t) := by
  have last := ahead.ends ends
  have read : outcome (expression inside) s = .ok (item.element .none, t) := by
    apply outcome_expression_of_climb last done
    exact item.outcome_climb ahead ends (Nat.le_refl _) (State.parted_of_done last done _)
      (by decide)
  have kinds : s.isAtSeparator = false ∧ s.isAtAny expressionFirst = true := by
    rw [State.isAtSeparator, State.isAt, State.isAt, State.isAtAny]
    have starts := (item.ahead_starts ahead).kind
    revert starts
    cases s.currentKind <;> decide
  obtain ⟨first, more, starts, unreserved⟩ := laid_starts free .none
  rw [starts] at ahead
  have length := ahead.length
  simp only [List.length_cons, tokensOf, List.length_map] at length
  exact outcome_scriptStatements_of_expression (ahead.unreserved unreserved) kinds.1 kinds.2 read
    last done (by omega)

end Item

/-- Whether the only statement of a tree is an expression of which something holds, and nothing was
reported. -/
def IsExpression (tree : Tree) (holds : Located → Prop) : Prop :=
  tree.diagnostics = [] ∧ (Located.root tree.root).HasList "statements" fun statements =>
    ∃ statement, statements = [statement] ∧ statement.kind = .expressionStatement ∧
      statement.HasNode "expression" holds

private theorem isExpression_of_element {element : Element}
    (accepted : element.isA .expression = true)
    {holds : Located → Prop} (shows : ∀ place : Located, place.element = element → holds place)
    (name : Option String) :
    IsExpression ⟨.file [some (.node .expressionStatement [some element, none] [])]
      Token.endOfText, [], name⟩ holds := by
  have single : ∀ statement ∈ [Element.node .expressionStatement [some element, none] []],
      statement.isA .statement = true := by
    intro statement member
    rw [List.mem_singleton.mp member]
    rfl
  refine ⟨rfl, Located.hasList_of_slot rfl rfl single fun places same => ?_⟩
  obtain ⟨statement, rfl, here⟩ := List.map_eq_singleton_iff.mp same
  have kind : statement.kind = .expressionStatement := by
    rw [Located.kind, here]
    rfl
  have known : statement.kind.fields.lookup "expression" = some (.child 0 .expression) := by
    rw [kind]
    rfl
  have filled : statement.element.slot? 0 = some element := by
    rw [here]
    rfl
  exact ⟨statement, rfl, kind, Located.hasNode_of_slot known filled accepted shows⟩

/-- White space parts the elements of a matrix, and a sign with white space on both sides or on none
joins two of them. -/
theorem parse_matrix (bracket : Bracket) (contents : Contents) (options : Options)
    (name : Option String) :
    (∃ tree, Tree.parse (bracket.text contents) options name = .ok tree ∧
      IsExpression tree fun matrix =>
        matrix.kind = bracket.kind ∧ matrix.element = bracket.element contents ∧
          matrix.HasList "elements" fun elements =>
            elements.map (·.element) = contents.elements ∧
              elements.map (·.kind) = contents.entries.map Entry.kind ∧
              elements.map (·.text?) = contents.entries.map fun entry => some entry.text) ∧
    ∀ item : Item, item.IsFree → ∃ tree, Tree.parse item.text options name = .ok tree ∧
      IsExpression tree fun alone =>
        alone.kind = item.kind ∧ alone.element = item.element .none := by
  constructor
  · obtain ⟨stream, lexed, tokens, eof, silent⟩ := bracket.tokenize_text contents
    refine ⟨_, parse_of_expression lexed eof silent tokens
      (fun s t => bracket.outcome_scriptStatements contents) name, ?_⟩
    apply isExpression_of_element
    · cases bracket <;> rfl
    · intro place here
      refine ⟨?_, here, bracket.hasList_elements contents here⟩
      rw [Located.kind, here]
      rfl
  · intro item free
    obtain ⟨stream, lexed, tokens, eof, silent⟩ := item.tokenize_text
    refine ⟨_, parse_of_expression lexed eof silent tokens
      (fun s t => Item.outcome_scriptStatements free) name, ?_⟩
    apply isExpression_of_element
    · exact (Entry.item item).isA_element .none
    · intro place here
      refine ⟨?_, here⟩
      rw [Located.kind, here, item.kind_element]

/-- Six items in five elements: a space, a comma, a line feed and a tab part them, and a minus sign
with spaces on both sides joins the last two. -/
theorem parse_matrix_mixed :
    ∃ contents : Contents,
      Bracket.square.text contents = "[1 -x, (2)\n\x7b3\x7d\tf(4) - -g\x7b5\x7d]".toList ∧
      contents.entries.map Entry.kind = [.numberLiteralExpression, .unaryPrefixOperationExpression,
        .parenthesizedExpression, .cellArrayLiteralExpression, .binaryOperationExpression] ∧
      (∃ tree, Tree.parse (Bracket.square.text contents) {} none = .ok tree ∧
        IsExpression tree fun matrix =>
          matrix.kind = .arrayLiteralExpression ∧
            matrix.element = Bracket.square.element contents ∧
            matrix.HasList "elements" fun elements =>
              elements.map (·.element) = contents.elements ∧
                elements.map (·.kind) = contents.entries.map Entry.kind ∧
                elements.map (·.text?) = contents.entries.map fun entry => some entry.text) ∧
      ∃ item : Item, item.text = ['-', 'x'] ∧ item.IsFree ∧
        ∃ tree, Tree.parse item.text {} none = .ok tree ∧ IsExpression tree fun alone =>
          alone.kind = .unaryPrefixOperationExpression ∧ alone.element = item.element .none := by
  let number (digit : Char) (isDigit : digit.isDigit = true) : Literal :=
    ⟨⟨[digit], none, none, none⟩, by simp [Numeral.isWellFormed, isDigit]⟩
  let tab : Spaces := ⟨['\t'], by simp, by simp⟩
  let one : Item := ⟨none, .number (number '1' rfl)⟩
  let x : Item := ⟨some .minus, .identifier ⟨['x'], rfl⟩⟩
  let two : Item := ⟨none, .parenthesized (number '2' rfl)⟩
  let three : Item := ⟨none, .cell (number '3' rfl)⟩
  let four : Item := ⟨none, .call ⟨['f'], rfl⟩ (number '4' rfl)⟩
  let five : Item := ⟨some .minus, .cellAccess ⟨['g'], rfl⟩ (number '5' rfl)⟩
  let contents : Contents :=
    ⟨.item one, [(.spaces .one, .item x), (.comma, .item two), (.lineFeed, .item three),
      (.spaces tab, .joined (.item four) .minus (.apart .one .one) five)]⟩
  have free : x.IsFree := by
    rintro name ⟨⟩
    decide
  exact ⟨contents, rfl, rfl, (parse_matrix .square contents {} none).1, x, rfl, free,
    (parse_matrix .square contents {} none).2 x free⟩

end MatrixScript.Grammar
