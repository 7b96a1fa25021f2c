import MatrixScript.Proofs.Grammar.Printing
import MatrixScript.Proofs.Grammar.Program

/-!
Reading a program recovers its blocks.

All words are identifiers, and one reader of statements serves every block: it stops at any word
that closes a block. A block is read to the end because no line of a statement starts with such a
word, and each construct then takes the word that closes it. `Statement.Parses` and `Block.Extends`
say so, and one lemma for each construct goes from the parts to the whole.
-/

set_option autoImplicit false

namespace MatrixScript.Grammar

def Keyword.token (keyword : Keyword) (gap : Gap) : Token := Written.token ⟨keyword.lexeme, gap⟩

def nameToken (name : Name) : Token := Written.token ⟨name.lexeme, .lineFeed⟩

def clauseSlots (keyword : Keyword) (head : Head) (body : List Element) : List (Option Element) :=
  [some (.leaf (keyword.token .space)), some (head.formula.element .lineFeed), none,
    some (.list body)]

def closingSlot : Option Element := some (.leaf (Keyword.endWord.token .lineFeed))

def functionElement (kind : Kind) (name : Name) (body : List Element) : Element :=
  .node kind [some (.leaf (Keyword.functionWord.token .space)), none,
    some (.ofChildren .compoundName [.leaf (nameToken name)]), none, some (.list body),
    closingSlot] []

def memberElement (kind : Kind) (word : Name) (members : List Element) : Element :=
  .node kind [some (.leaf (nameToken word)), none, some (.list members), closingSlot] []

def assignmentElement (target : Name) (value : Literal) : Element :=
  .node .expressionStatement [some ((assignmentFormula target value).element .none),
    some (.leaf (Written.token ⟨.fixed .semicolon, .lineFeed⟩))] []

mutual

def Statement.element : Statement → Element
  | .assignment target value => assignmentElement target value
  | .ifThen condition body alternatives otherwise =>
    .node .ifStatement (clauseSlots .ifWord (.named condition) body.elements ++
      [some (.list (alternatives.elements .elseifClause .elseifWord)), otherwise.elseElement?,
        closingSlot]) []
  | .whileLoop condition body =>
    .node .whileLoopStatement
      (clauseSlots .whileWord (.named condition) body.elements ++ [closingSlot]) []
  | .forLoop counter bound body =>
    .node .forLoopStatement
      (clauseSlots .forWord (.range counter bound) body.elements ++ [closingSlot]) []
  | .switch subject cases otherwise =>
    .node .switchStatement [some (.leaf (Keyword.switchWord.token .space)),
      some ((Formula.identifier subject).element .lineFeed), none,
      some (.list (cases.elements .switchCase .caseWord ++ otherwise.caseElements)),
      closingSlot] []
  | .tryCatch body handler =>
    .node .tryCatchStatement [some (.leaf (Keyword.tryWord.token .lineFeed)), none,
      some (.list body.elements), handler.element?, closingSlot] []
  | .function name body => functionElement .functionDeclaration name body.elements
  | .classDefinition name members =>
    .node .classDeclaration [some (.leaf (Keyword.classdefWord.token .space)), none,
      some (.leaf (nameToken name)), none, some (.list members.elements), closingSlot] []

def Block.elements : Block → List Element
  | .nil => []
  | .cons first rest => first.element :: rest.elements

def Clauses.elements : Clauses → Kind → Keyword → List Element
  | .nil, _, _ => []
  | .cons name body rest, kind, keyword =>
    .node kind (clauseSlots keyword (.named name) body.elements) [] :: rest.elements kind keyword

def Clauses.methodElements : Clauses → List Element
  | .nil => []
  | .cons name body rest =>
    functionElement .methodDefinition name body.elements :: rest.methodElements

def Fallback.elseElement? : Fallback → Option Element
  | .none => none
  | .some body =>
    some (.ofChildren .elseClause
      [.leaf (Keyword.elseWord.token .lineFeed), .list body.elements])

def Fallback.caseElements : Fallback → List Element
  | .none => []
  | .some body =>
    [.node .switchCase [some (.leaf (Keyword.otherwiseWord.token .lineFeed)), none, none,
      some (.list body.elements)] []]

def Handler.element? : Handler → Option Element
  | .none => none
  | .catching none body =>
    some (.node .catchClause [some (.leaf (Keyword.catchWord.token .lineFeed)), none, none,
      some (.list body.elements)] [])
  | .catching (some name) body =>
    some (.node .catchClause [some (.leaf (Keyword.catchWord.token .space)),
      some (.leaf (nameToken name)), none, some (.list body.elements)] [])

def Member.element : Member → Element
  | .properties values =>
    memberElement .propertiesList propertiesWord
      (values.map fun entry => assignmentElement entry.1 entry.2)
  | .methods methods => memberElement .methodsList methodsWord methods.methodElements
  | .events names =>
    memberElement .eventsList eventsWord (names.map fun name => .leaf (nameToken name))
  | .enumeration names =>
    memberElement .enumerationList enumerationWord
      (names.map fun name => .node .enumerationItem [some (.leaf (nameToken name)), none] [])

def Members.elements : Members → List Element
  | .nil => []
  | .cons first rest => first.element :: rest.elements

end

def Before (s : State) (lines : List Line) (t : State) : Prop :=
  Ahead s (lines.flatMap Line.tokens) t

def State.Within (state : State) (depth : Nat) : Prop :=
  state.eof.kind = .eof ∧ state.rest.length < depth

def State.AtWord (state : State) (word : String) : Prop :=
  state.currentKind = .identifier ∧ ∀ other, state.isAtWord other = (word == other)

theorem outcome_lift_bind_of_ok {α β : Type} {f : Read α} {g : α → Parse β} {a : α} {s t : State}
    (first : outcome f s = .ok (a, t)) : outcome (liftM f >>= g) s = outcome (g a) t :=
  outcome_bind_of_ok (f := liftM f) first

theorem Ahead.within {s t : State} {tokens : List Token} {depth : Nat} (ahead : Ahead s tokens t)
    (within : s.Within depth) : t.Within depth := by
  have length := ahead.length
  exact ⟨ahead.ends within.1, by have := within.2; omega⟩

theorem Ahead.within_pred {s t : State} {tokens : List Token} {depth : Nat}
    (ahead : Ahead s tokens t) (some : tokens ≠ []) (within : s.Within (depth + 1)) :
    t.Within depth := by
  have length := ahead.length
  have used := List.length_pos_iff.mpr some
  exact ⟨ahead.ends within.1, by have := within.2; omega⟩

namespace State

variable {s : State} {word : String}

theorem AtWord.isAtTerminator_eq (here : s.AtWord word) :
    s.isAtTerminator = Word.terminators.contains word := by
  have same : s.isAtWord = fun other => word == other := funext here.2
  rw [isAtTerminator, same, List.any_beq]

private theorem closes_of_identifier (identifier : s.currentKind = .identifier) : s.Closes := by
  rw [Closes, identifier]
  decide

theorem currentKind_of_isAtTerminator (stops : s.isAtTerminator = true) :
    s.currentKind = .identifier := by
  rw [isAtTerminator, List.any_eq_true] at stops
  obtain ⟨word, -, here⟩ := stops
  simp only [isAtWord, Token.isWord, Bool.and_eq_true, beq_iff_eq] at here
  exact here.1

end State

namespace Line

variable {keyword : Keyword} {head : Head} {s t : State}

theorem atWord_of_token {word : String} {gap : Gap} {tokens : List Token}
    (ahead : Ahead s (Written.token ⟨.word word.toList, gap⟩ :: tokens) t) : s.AtWord word := by
  refine ⟨ahead.currentKind, ?_⟩
  intro other
  rw [State.isAtWord, ahead.current, Written.token_isWord, Bool.eq_iff_iff]
  simp [Lexeme.word, String.toList_inj]

private theorem atWord {tokens : List Token} {gap : Gap}
    (ahead : Ahead s (keyword.token gap :: tokens) t) : s.AtWord keyword.text :=
  atWord_of_token ahead

private theorem word_ahead (ahead : Ahead s (word keyword).tokens t) :
    s.AtWord keyword.text ∧ outcome advance s = .ok (keyword.token .lineFeed, t) ∧
      t.previousEndsLine = true := by
  have only : Ahead s [keyword.token .lineFeed] t := ahead
  obtain ⟨u, used, -, done⟩ := only.advance
  cases done
  refine ⟨atWord only, used, ?_⟩
  rw [State.previousEndsLine, only.previous rfl]
  rfl

theorem headed_ahead (ahead : Ahead s (headed keyword head).tokens t) :
    s.AtWord keyword.text ∧ ∃ u, outcome advance s = .ok (keyword.token .space, u) ∧
      u.previousEndsLine = false ∧ Ahead s [keyword.token .space] u ∧
      Ahead u (head.formula.tokens .lineFeed) t := by
  have whole : Ahead s (keyword.token .space :: head.formula.tokens .lineFeed) t := ahead
  obtain ⟨u, used, one, rest⟩ := whole.advance
  refine ⟨atWord whole, u, used, ?_, one, rest⟩
  rw [State.previousEndsLine, one.previous rfl]
  rfl

private theorem starts (line : Line) : ∃ token more, line.tokens = token :: more ∧
    token.kind = .identifier := by
  cases line with
  | word keyword => exact ⟨_, _, rfl, rfl⟩
  | headed keyword head => exact ⟨_, _, rfl, rfl⟩
  | assignment target value => exact ⟨_, _, rfl, rfl⟩
  | bare name => exact ⟨_, _, rfl, rfl⟩

end Line

namespace Before

variable {s t u : State} {line : Line} {lines more : List Line}

theorem append (before : Before s (lines ++ more) u) :
    ∃ t, Before s lines t ∧ Before t more u := by
  rw [Before, List.flatMap_append] at before
  exact Ahead.append before

theorem cons (before : Before s (line :: lines) t) :
    ∃ u, Ahead s line.tokens u ∧ Before u lines t :=
  Ahead.append before

theorem currentKind (before : Before s lines t) (after : t.currentKind = .identifier) :
    s.currentKind = .identifier := by
  cases lines with
  | nil =>
    cases before
    exact after
  | cons line lines =>
    obtain ⟨u, ahead, -⟩ := before.cons
    obtain ⟨token, rest, starts, kind⟩ := line.starts
    rw [starts] at ahead
    rw [ahead.currentKind]
    exact kind

end Before

private theorem outcome_eatSeparator_of_line {s : State} (ended : s.previousEndsLine = true) :
    outcome eatSeparator s = .ok (none, s) := by
  apply outcome_eatIf_of_false
  simp [ended]

private theorem outcome_expression_of_head {head : Head} {inside : Bool} {s t : State}
    (ahead : Ahead s (head.formula.tokens .lineFeed) t) (ends : s.eof.kind = .eof)
    (next : t.currentKind = .identifier) :
    outcome (expression inside) s = .ok (head.formula.element .lineFeed, t) := by
  have proper : head.formula.isProper = true := by
    cases head with
    | named name => rfl
    | range counter bound => rfl
  exact Formula.outcome_expression proper ahead ends (State.closes_of_identifier next)
    (.ends (Formula.previousEndsLine ahead))

def Statement.Parses (one : Statement) : Prop :=
  ∀ {inside : Bool} {depth : Nat} {s t : State}, Before s one.lines t → s.Within (depth + 1) →
    outcome (statement (blockWithin inside depth) inside) s = .ok (one.element, t)

def Block.Extends (block : Block) : Prop :=
  ∀ (inside : Bool) (scope : Scope) (statements : List Element) {depth : Nat} {s t : State},
    Before s block.lines t → s.Within (depth + 1) →
    outcome (repeatParse (statementStep (blockWithin inside depth) inside scope) statements) s =
      outcome (repeatParse (statementStep (blockWithin inside depth) inside scope)
        (statements ++ block.elements)) t

theorem Block.Extends.closed {block : Block} (reads : block.Extends) {inside : Bool} {depth : Nat}
    {s t : State} (before : Before s block.lines t) (within : s.Within depth)
    (stops : t.isAtTerminator = true) :
    outcome (blockWithin inside depth) s = .ok (.list block.elements, t) := by
  -- Fewer tokens than the depth are left, so the depth is not zero.
  cases depth with
  | zero => exact absurd within.2 (Nat.not_lt_zero _)
  | succ depth =>
    have stop : outcome (statementStep (blockWithin inside depth) inside .block
        ([] ++ block.elements)) t = .ok (none, t) := by
      have identifier := State.currentKind_of_isAtTerminator stops
      have more : t.isAtEnd = false := by simp [State.isAtEnd, State.isAt, identifier]
      unfold statementStep
      rw [outcome_get_bind]
      simp only [more, stops, Bool.false_eq_true, if_false, if_true]
      exact outcome_pure _ _
    have whole := (reads inside .block [] before within).trans (outcome_repeat_stop stop)
    rw [blockWithin, statementList, outcome_bind_of_ok whole]
    rfl

theorem Block.nil_extends : Block.nil.Extends := by
  intro inside scope statements depth s t before within
  cases before
  rw [Block.elements, List.append_nil]

section

variable {inside : Bool} {depth : Nat} {s t : State}

theorem Before.headed_atWord {keyword : Keyword} {head : Head} {lines : List Line}
    (before : Before s (.headed keyword head :: lines) t) : s.AtWord keyword.text := by
  obtain ⟨u, line, -⟩ := before.cons
  exact (Line.headed_ahead line).1

private theorem Before.word_atWord {keyword : Keyword} {lines : List Line}
    (before : Before s (.word keyword :: lines) t) : s.AtWord keyword.text := by
  obtain ⟨u, line, -⟩ := before.cons
  exact (Line.word_ahead line).1

private theorem assignment_unreserved {target : Name} {value : Literal} {lines : List Line}
    (before : Before s (.assignment target value :: lines) t) : s.Unreserved := by
  obtain ⟨u, line, -⟩ := before.cons
  rw [Line.tokens, Line.written, List.map_append] at line
  obtain ⟨v, formula, -⟩ := line.append
  exact (Formula.ahead_starts formula).2

private theorem Statement.starts (one : Statement) (before : Before s one.lines t) :
    s.currentKind = .identifier ∧ s.isAtTerminator = false ∧ t.rest.length < s.rest.length := by
  have shorter {line : Line} {lines : List Line} (before : Before s (line :: lines) t) :
      s.currentKind = .identifier ∧ t.rest.length < s.rest.length := by
    obtain ⟨u, here, later⟩ := before.cons
    obtain ⟨token, rest, starts, kind⟩ := line.starts
    rw [starts] at here
    have first := here.length
    have second := Ahead.length later
    rw [List.length_cons] at first
    exact ⟨here.currentKind.trans kind, by omega⟩
  have opens {keyword : Keyword} (here : s.AtWord keyword.text)
      (other : Word.terminators.contains keyword.text = false) : s.isAtTerminator = false := by
    rw [here.isAtTerminator_eq, other]
  cases one with
  | assignment target value =>
    have facts := shorter before
    exact ⟨facts.1, (assignment_unreserved before).not_isAtTerminator, facts.2⟩
  | tryCatch body handler =>
    have facts := shorter before
    exact ⟨facts.1, opens before.word_atWord rfl, facts.2⟩
  | _ =>
    have facts := shorter before
    exact ⟨facts.1, opens before.headed_atWord rfl, facts.2⟩

theorem Statement.Parses.cons {first : Statement} {rest : Block} (parses : first.Parses)
    (reads : rest.Extends) : (Block.cons first rest).Extends := by
  intro inside scope statements depth s t before within
  obtain ⟨u, here, later⟩ := before.append
  obtain ⟨identifier, goesOn, shorter⟩ := first.starts here
  have notEnd : s.isAtEnd = false := by simp [State.isAtEnd, State.isAt, identifier]
  have starts : s.isAtAny expressionFirst = true := by
    rw [State.isAtAny, identifier]
    decide
  have round : outcome (statementStep (blockWithin inside depth) inside scope statements) s =
      .ok (some (statements ++ [first.element]), u) :=
    outcome_statementStep_of_statement notEnd goesOn starts (parses here within) shorter
  have steady := Steady.statementStep (blockWithin inside depth) inside scope
  have rounds := reads inside scope (statements ++ [first.element]) later (Ahead.within here within)
  rw [List.append_assoc] at rounds
  exact (outcome_repeat_step steady within.1 round).trans rounds

theorem assignment_parses (target : Name) (value : Literal) :
    (Statement.assignment target value).Parses := by
  intro inside depth s t before within
  have unreserved := assignment_unreserved before
  obtain ⟨u, line, done⟩ := before.cons
  cases done
  rw [Line.tokens, Line.written, List.map_append] at line
  obtain ⟨v, formula, closing⟩ := line.append
  obtain ⟨w, used, -, done⟩ := Ahead.advance closing
  cases done
  have kind : v.currentKind = .semicolon := closing.currentKind
  have here : s.currentKind = .identifier := (Statement.starts _ before).1
  have read : outcome (expression inside) s =
      .ok ((assignmentFormula target value).element .none, v) := by
    apply Formula.outcome_expression rfl formula within.1
    · rw [State.Closes, kind]
      decide
    · refine Or.inr (Or.inl ?_)
      intro precedence known
      rw [kind] at known
      cases known
  have separator : outcome eatSeparator v =
      .ok (some (Written.token ⟨.fixed .semicolon, .lineFeed⟩), t) := by
    have sameLine : v.previousEndsLine = false := Formula.previousEndsLine formula
    have passes : (!v.previousEndsLine && v.isAtSeparator) = true := by
      simp [sameLine, State.isAtSeparator, State.isAt, kind]
    rw [eatSeparator, outcome_eatIf_of_true passes, used]
    rfl
  have inner : s.isAtSeparator = false := by simp [State.isAtSeparator, State.isAt, here]
  rw [outcome_statement_of_unreserved unreserved inner, expressionStatement,
    outcome_bind_of_ok read, outcome_bind_of_ok separator]
  rfl

theorem Before.closing (before : Before s [.word .endWord] t) :
    s.AtWord "end" ∧ s.isAtTerminator = true ∧
      outcome (expectWord "end") s = .ok (Keyword.endWord.token .lineFeed, t) ∧
      outcome (eatWord "end") s = .ok (some (Keyword.endWord.token .lineFeed), t) := by
  obtain ⟨u, line, done⟩ := before.cons
  cases done
  obtain ⟨here, used, -⟩ := Line.word_ahead line
  have passes : s.isAtWord "end" = true := here.2 "end"
  refine ⟨here, here.isAtTerminator_eq, ?_, ?_⟩
  · rw [outcome_expectWord_of_true passes, used]
  · rw [eatWord, outcome_eatIf_of_true passes, used]
    rfl

private theorem Block.Extends.headed {keyword : Keyword} {head : Head} {body : Block}
    (reads : body.Extends) (inside : Bool)
    (before : Before s (.headed keyword head :: body.lines) t)
    (within : s.Within (depth + 1)) (stops : t.isAtTerminator = true) :
    ∃ u v, outcome advance s = .ok (keyword.token .space, u) ∧
      outcome (expression inside) u = .ok (head.formula.element .lineFeed, v) ∧
      outcome eatSeparator v = .ok (none, v) ∧
      outcome (blockWithin inside depth) v = .ok (.list body.elements, t) := by
  obtain ⟨v, line, lines⟩ := before.cons
  obtain ⟨-, u, used, -, one, condition⟩ := Line.headed_ahead line
  have next := lines.currentKind (State.currentKind_of_isAtTerminator stops)
  refine ⟨u, v, used, outcome_expression_of_head condition (one.ends within.1) next,
    outcome_eatSeparator_of_line (Formula.previousEndsLine condition), ?_⟩
  exact reads.closed lines (condition.within (one.within_pred (by simp) within)) stops

private theorem Block.Extends.worded {keyword : Keyword} {body : Block} (reads : body.Extends)
    (inside : Bool) (before : Before s (.word keyword :: body.lines) t)
    (within : s.Within (depth + 1)) (stops : t.isAtTerminator = true) :
    ∃ u, outcome advance s = .ok (keyword.token .lineFeed, u) ∧ u.previousEndsLine = true ∧
      outcome eatSeparator u = .ok (none, u) ∧
      outcome (blockWithin inside depth) u = .ok (.list body.elements, t) := by
  obtain ⟨u, line, lines⟩ := before.cons
  obtain ⟨-, used, ended⟩ := Line.word_ahead line
  refine ⟨u, used, ended, outcome_eatSeparator_of_line ended, ?_⟩
  exact reads.closed lines (line.within_pred (by simp [Line.tokens, Line.written]) within) stops

private theorem outcome_clause {keyword : Keyword} {head : Head} {body : Block}
    (reads : body.Extends)
    (before : Before s (.headed keyword head :: body.lines) t) (within : s.Within (depth + 1))
    (stops : t.isAtTerminator = true) :
    outcome (clause (blockWithin inside depth) inside) s =
      .ok (clauseSlots keyword head body.elements, t) := by
  obtain ⟨u, v, used, condition, separator, block⟩ := reads.headed inside before within stops
  rw [clause, outcome_lift_bind_of_ok used, outcome_lift_bind_of_ok condition,
    outcome_lift_bind_of_ok separator, outcome_bind_of_ok block]
  rfl

private theorem outcome_loopStatement {keyword : Keyword} {head : Head} {body : Block}
    (reads : body.Extends)
    (before : Before s (.headed keyword head :: (body.lines ++ [.word .endWord])) t)
    (within : s.Within (depth + 1)) (kind : Kind) :
    outcome (loopStatement (blockWithin inside depth) inside kind) s =
      .ok (.node kind (clauseSlots keyword head body.elements ++ [closingSlot]) [], t) := by
  have split : Before s ((.headed keyword head :: body.lines) ++ [.word .endWord]) t := before
  obtain ⟨u, here, last⟩ := split.append
  obtain ⟨-, stops, closing, -⟩ := last.closing
  rw [loopStatement, outcome_bind_of_ok (outcome_clause reads here within stops),
    outcome_lift_bind_of_ok closing]
  rfl

theorem whileLoop_parses (condition : Name) {body : Block} (reads : body.Extends) :
    (Statement.whileLoop condition body).Parses := by
  intro inside depth s t before within
  have here : s.AtWord "while" := before.headed_atWord
  rw [statement, outcome_get_bind]
  simp only [here.2, String.reduceBEq, Bool.false_eq_true, if_false, if_true]
  exact outcome_loopStatement reads before within .whileLoopStatement

theorem forLoop_parses (counter : Name) (bound : Literal) {body : Block} (reads : body.Extends) :
    (Statement.forLoop counter bound body).Parses := by
  intro inside depth s t before within
  have here : s.AtWord "for" := before.headed_atWord
  rw [statement, outcome_get_bind]
  simp only [here.2, String.reduceBEq, Bool.true_or, Bool.false_eq_true, if_false, if_true]
  exact outcome_loopStatement reads before within .forLoopStatement

end

/-! Conditions and choices: clauses that the next one, or the last word, closes. -/

section

variable {inside : Bool} {depth : Nat} {s t : State}

private theorem Before.isAtTerminator_clauses {clauses : Clauses} {keyword : Keyword}
    (closes : Word.terminators.contains keyword.text = true)
    (before : Before s (clauses.lines keyword) t) (stops : t.isAtTerminator = true) :
    s.isAtTerminator = true := by
  cases clauses with
  | nil =>
    cases before
    exact stops
  | cons name body rest =>
    rw [before.headed_atWord.isAtTerminator_eq]
    exact closes

private theorem Before.isAtTerminator_fallback {otherwise : Fallback} {keyword : Keyword}
    (closes : Word.terminators.contains keyword.text = true)
    (before : Before s (otherwise.lines keyword) t) (stops : t.isAtTerminator = true) :
    s.isAtTerminator = true := by
  cases otherwise with
  | none =>
    cases before
    exact stops
  | some body =>
    rw [before.word_atWord.isAtTerminator_eq]
    exact closes

private theorem Clauses.extends_of_round {kind : Kind} {keyword : Keyword}
    (closes : Word.terminators.contains keyword.text = true)
    {step : List Element → Parse (Option (List Element))} (steady : Steady step)
    [∀ elements, Forward (step elements)]
    (round : ∀ {name : Name} {body : Block} {s t : State} (elements : List Element),
      body.Extends → Before s (.headed keyword (.named name) :: body.lines) t →
      s.Within (depth + 1) → t.isAtTerminator = true →
      outcome (step elements) s = .ok (some (elements ++
        [.node kind (clauseSlots keyword (.named name) body.elements) []]), t)) :
    (clauses : Clauses) → clauses.All Block.Extends → (elements : List Element) → {s t : State} →
    Before s (clauses.lines keyword) t → s.Within (depth + 1) → t.isAtTerminator = true →
    outcome (repeatParse step elements) s =
      outcome (repeatParse step (elements ++ clauses.elements kind keyword)) t
  | .nil, _, elements, s, t, before, _, _ => by
    cases before
    rw [Clauses.elements, List.append_nil]
  | .cons name body rest, all, elements, s, t, before, within, stops => by
    have split : Before s ((.headed keyword (.named name) :: body.lines) ++
        rest.lines keyword) t := before
    obtain ⟨u, here, later⟩ := split.append
    have taken := round elements all.1 here within (later.isAtTerminator_clauses closes stops)
    -- The word of the next clause closes this one, and so does the end after the last.
    have rounds := Clauses.extends_of_round closes steady round rest all.2
      (elements ++ [.node kind (clauseSlots keyword (.named name) body.elements) []]) later
      (Ahead.within here within) stops
    rw [List.append_assoc] at rounds
    exact (outcome_repeat_step steady within.1 taken).trans rounds

private theorem outcome_elseifStep {name : Name} {body : Block} (elements : List Element)
    (reads : body.Extends)
    (before : Before s (.headed .elseifWord (.named name) :: body.lines) t)
    (within : s.Within (depth + 1)) (stops : t.isAtTerminator = true) :
    outcome (elseifStep (blockWithin inside depth) inside elements) s = .ok (some (elements ++
      [.node .elseifClause (clauseSlots .elseifWord (.named name) body.elements) []]), t) := by
  have here : s.isAtWord "elseif" = true := before.headed_atWord.2 "elseif"
  rw [elseifStep, outcome_get_bind, if_pos here,
    outcome_bind_of_ok (outcome_clause reads before within stops)]
  rfl

private theorem outcome_switchStep_case {name : Name} {body : Block} (elements : List Element)
    (reads : body.Extends) (before : Before s (.headed .caseWord (.named name) :: body.lines) t)
    (within : s.Within (depth + 1)) (stops : t.isAtTerminator = true) :
    outcome (switchStep (blockWithin inside depth) inside elements) s = .ok (some (elements ++
      [.node .switchCase (clauseSlots .caseWord (.named name) body.elements) []]), t) := by
  have here : s.AtWord "case" := before.headed_atWord
  obtain ⟨u, v, used, label, separator, block⟩ := reads.headed inside before within stops
  have labelled : outcome (some <$> (liftM (expression inside) : Parse Element)) u =
      .ok (some ((Head.named name).formula.element .lineFeed), v) :=
    outcome_map_of_ok label
  have read : outcome (switchCase (blockWithin inside depth) inside) s =
      .ok (.node .switchCase (clauseSlots .caseWord (.named name) body.elements) [], t) := by
    rw [switchCase, outcome_get_bind]
    simp only [here.2, String.reduceBEq, if_true]
    rw [outcome_lift_bind_of_ok used, outcome_bind_of_ok labelled,
      outcome_lift_bind_of_ok separator, outcome_bind_of_ok block]
    rfl
  rw [switchStep, outcome_get_bind]
  simp only [here.2, String.reduceBEq, Bool.true_or, if_true]
  rw [outcome_bind_of_ok read]
  rfl

private theorem outcome_switchStep_otherwise {body : Block} (elements : List Element)
    (reads : body.Extends) (before : Before s (.word .otherwiseWord :: body.lines) t)
    (within : s.Within (depth + 1)) (stops : t.isAtTerminator = true) :
    outcome (switchStep (blockWithin inside depth) inside elements) s =
      .ok (some (elements ++ (Fallback.some body).caseElements), t) := by
  have here : s.AtWord "otherwise" := before.word_atWord
  obtain ⟨u, used, -, separator, block⟩ := reads.worded inside before within stops
  have read : outcome (switchCase (blockWithin inside depth) inside) s =
      .ok (.node .switchCase [some (.leaf (Keyword.otherwiseWord.token .lineFeed)), none, none,
        some (.list body.elements)] [], t) := by
    rw [switchCase, outcome_get_bind]
    simp only [here.2, String.reduceBEq, Bool.false_eq_true, if_false]
    rw [outcome_lift_bind_of_ok used, outcome_bind_of_ok (outcome_pure none u),
      outcome_lift_bind_of_ok separator, outcome_bind_of_ok block]
    rfl
  rw [switchStep, outcome_get_bind]
  simp only [here.2, String.reduceBEq, Bool.false_or, if_true]
  rw [outcome_bind_of_ok read]
  rfl

private theorem outcome_cases {cases : Clauses} {otherwise : Fallback}
    (reads : cases.All Block.Extends) (last : otherwise.All Block.Extends)
    (before : Before s (cases.lines .caseWord ++ otherwise.lines .otherwiseWord) t)
    (within : s.Within (depth + 1)) (stops : t.AtWord "end") :
    outcome (repeatParse (switchStep (blockWithin inside depth) inside) []) s =
      .ok (cases.elements .switchCase .caseWord ++ otherwise.caseElements, t) := by
  obtain ⟨u, first, second⟩ := before.append
  have steady := Steady.switchStep (blockWithin inside depth) inside
  have terminator : t.isAtTerminator = true := stops.isAtTerminator_eq
  have rounds := Clauses.extends_of_round rfl steady outcome_switchStep_case cases reads [] first
    within (second.isAtTerminator_fallback rfl terminator)
  have stop (elements : List Element) :
      outcome (switchStep (blockWithin inside depth) inside elements) t = .ok (none, t) := by
    rw [switchStep, outcome_get_bind]
    simp only [stops.2, String.reduceBEq, Bool.or_self, Bool.or_true, Bool.false_eq_true, if_false,
      if_true]
    exact outcome_pure _ _
  rw [List.nil_append] at rounds
  refine rounds.trans ?_
  cases otherwise with
  | none =>
    cases second
    rw [Fallback.caseElements, List.append_nil]
    exact outcome_repeat_stop (stop _)
  | some body =>
    have within := Ahead.within first within
    have round : outcome (switchStep (blockWithin inside depth) inside
        (cases.elements .switchCase .caseWord)) u = _ :=
      outcome_switchStep_otherwise _ last second within terminator
    exact (outcome_repeat_step steady within.1 round).trans (outcome_repeat_stop (stop _))

theorem switch_parses (subject : Name) {cases : Clauses} {otherwise : Fallback}
    (reads : cases.All Block.Extends) (last : otherwise.All Block.Extends) :
    (Statement.switch subject cases otherwise).Parses := by
  intro inside depth s t before within
  have here : s.AtWord "switch" := before.headed_atWord
  have split : Before s (.headed .switchWord (.named subject) ::
      ((cases.lines .caseWord ++ otherwise.lines .otherwiseWord) ++ [.word .endWord])) t := by
    rw [List.append_assoc]
    exact before
  obtain ⟨v, line, rest⟩ := split.cons
  obtain ⟨-, u, used, -, one, head⟩ := Line.headed_ahead line
  obtain ⟨w, lines, final⟩ := rest.append
  obtain ⟨atEnd, -, closing, -⟩ := final.closing
  have expression : outcome (expression inside) u =
      .ok ((Formula.identifier subject).element .lineFeed, v) :=
    outcome_expression_of_head head (one.ends within.1) (lines.currentKind atEnd.1)
  have separator := outcome_eatSeparator_of_line (Formula.previousEndsLine head)
  have read : outcome (repeatParse (switchStep (blockWithin inside depth) inside) []) v = _ :=
    outcome_cases reads last lines (Ahead.within line within) atEnd
  rw [statement, outcome_get_bind]
  simp only [here.2, String.reduceBEq, Bool.false_eq_true, if_false, if_true]
  rw [switchStatement, outcome_lift_bind_of_ok used, outcome_lift_bind_of_ok expression,
    outcome_lift_bind_of_ok separator, outcome_bind_of_ok read, outcome_lift_bind_of_ok closing]
  rfl

private theorem outcome_elseClause {otherwise : Fallback} (reads : otherwise.All Block.Extends)
    (before : Before s (otherwise.lines .elseWord) t) (within : s.Within (depth + 1))
    (stops : t.AtWord "end") :
    outcome (elseClause (blockWithin inside depth)) s = .ok (otherwise.elseElement?, t) := by
  cases otherwise with
  | none =>
    cases before
    have other : outcome (eatWord "else") s = .ok (none, s) :=
      outcome_eatIf_of_false (stops.2 "else")
    rw [elseClause, outcome_lift_bind_of_ok other]
    rfl
  | some body =>
    have here : s.AtWord "else" := before.word_atWord
    obtain ⟨u, used, -, -, block⟩ :=
      Block.Extends.worded reads inside before within stops.isAtTerminator_eq
    have word : outcome (eatWord "else") s = .ok (some (Keyword.elseWord.token .lineFeed), u) := by
      rw [eatWord, outcome_eatIf_of_true (here.2 "else"), used]
      rfl
    rw [elseClause, outcome_lift_bind_of_ok word]
    exact outcome_bind_of_ok block

theorem ifThen_parses (condition : Name) {body : Block} {alternatives : Clauses}
    {otherwise : Fallback} (reads : body.Extends) (further : alternatives.All Block.Extends)
    (last : otherwise.All Block.Extends) :
    (Statement.ifThen condition body alternatives otherwise).Parses := by
  intro inside depth s t before within
  have here : s.AtWord "if" := before.headed_atWord
  have split : Before s ((.headed .ifWord (.named condition) :: body.lines) ++
      (alternatives.lines .elseifWord ++ (otherwise.lines .elseWord ++ [.word .endWord]))) t :=
    before
  obtain ⟨u, first, rest⟩ := split.append
  obtain ⟨v, second, rest⟩ := rest.append
  obtain ⟨w, third, final⟩ := rest.append
  obtain ⟨atEnd, stops, closing, -⟩ := final.closing
  have stopsThird := third.isAtTerminator_fallback rfl stops
  have stopsSecond := second.isAtTerminator_clauses rfl stopsThird
  have withinSecond := Ahead.within first within
  have withinThird := Ahead.within second withinSecond
  have clauses : outcome (repeatParse (elseifStep (blockWithin inside depth) inside) []) u =
      .ok (alternatives.elements .elseifClause .elseifWord, v) := by
    have steady := Steady.elseifStep (blockWithin inside depth) inside
    have rounds := Clauses.extends_of_round rfl steady outcome_elseifStep alternatives further []
      second withinSecond stopsThird
    have other : v.isAtWord "elseif" = false := by
      cases otherwise with
      | none =>
        cases third
        exact atEnd.2 "elseif"
      | some body => exact third.word_atWord.2 "elseif"
    have stop : outcome (elseifStep (blockWithin inside depth) inside
        ([] ++ alternatives.elements .elseifClause .elseifWord)) v = .ok (none, v) := by
      rw [elseifStep, outcome_get_bind, if_neg (by simp [other])]
      exact outcome_pure _ _
    exact rounds.trans (outcome_repeat_stop stop)
  rw [statement, outcome_get_bind]
  simp only [here.2, String.reduceBEq, Bool.false_eq_true, if_false, if_true]
  rw [ifStatement, outcome_bind_of_ok (outcome_clause reads first within stopsSecond),
    outcome_bind_of_ok clauses,
    outcome_bind_of_ok (outcome_elseClause last third withinThird atEnd),
    outcome_lift_bind_of_ok closing]
  rfl

theorem Line.name_ahead {name : Name} (ahead : Ahead s [nameToken name] t) :
    s.currentKind = .identifier ∧ s.Unreserved ∧
      outcome advance s = .ok (nameToken name, t) ∧ t.previousEndsLine = true := by
  have formula : Ahead s ((Formula.identifier name).tokens .lineFeed) t := ahead
  obtain ⟨u, used, -, done⟩ := ahead.advance
  cases done
  exact ⟨ahead.currentKind, (Formula.ahead_starts formula).2, used,
    Formula.previousEndsLine formula⟩

private theorem outcome_catchClause {handler : Handler} (reads : handler.All Block.Extends)
    (before : Before s handler.lines t) (within : s.Within (depth + 1)) (stops : t.AtWord "end") :
    outcome (catchClause (blockWithin inside depth)) s = .ok (handler.element?, t) := by
  have catches {gap : Gap} {u : State} (here : s.AtWord "catch")
      (used : outcome advance s = .ok (Keyword.catchWord.token gap, u)) :
      outcome (eatWord "catch") s = .ok (some (Keyword.catchWord.token gap), u) := by
    rw [eatWord, outcome_eatIf_of_true (here.2 "catch"), used]
    rfl
  cases handler with
  | none =>
    cases before
    have other : outcome (eatWord "catch") s = .ok (none, s) :=
      outcome_eatIf_of_false (stops.2 "catch")
    rw [catchClause, outcome_lift_bind_of_ok other]
    rfl
  | catching name body =>
    cases name with
    | none =>
      -- The first word of the statements may be a name too, but it is on another line.
      obtain ⟨u, used, ended, separator, block⟩ :=
        Block.Extends.worded reads inside before within stops.isAtTerminator_eq
      have unnamed : outcome (eatIf fun state =>
          !state.previousEndsLine && !state.isAtTerminator && state.isAt .identifier) u =
            .ok (none, u) := outcome_eatIf_of_false (by simp [ended])
      rw [catchClause, outcome_lift_bind_of_ok (catches before.word_atWord used)]
      show outcome (liftM _ >>= _) u = _
      rw [outcome_lift_bind_of_ok unnamed, outcome_lift_bind_of_ok separator,
        outcome_bind_of_ok block]
      rfl
    | some name =>
      obtain ⟨v, line, lines⟩ := before.cons
      obtain ⟨here, u, used, goesOn, one, head⟩ := Line.headed_ahead line
      obtain ⟨kind, unreserved, taken, ended⟩ := Line.name_ahead head
      have named : outcome (eatIf fun state =>
          !state.previousEndsLine && !state.isAtTerminator && state.isAt .identifier) u =
            .ok (some (nameToken name), v) := by
        rw [outcome_eatIf_of_true (by
          simp [goesOn, unreserved.not_isAtTerminator, State.isAt, kind]), taken]
        rfl
      have separator := outcome_eatSeparator_of_line ended
      have block : outcome (blockWithin inside depth) v = .ok (.list body.elements, t) :=
        Block.Extends.closed reads lines (head.within (one.within_pred (by simp) within))
          stops.isAtTerminator_eq
      rw [catchClause, outcome_lift_bind_of_ok (catches here used)]
      show outcome (liftM _ >>= _) u = _
      rw [outcome_lift_bind_of_ok named, outcome_lift_bind_of_ok separator,
        outcome_bind_of_ok block]
      rfl

private theorem Before.isAtTerminator_handler {handler : Handler}
    (before : Before s handler.lines t)
    (stops : t.isAtTerminator = true) : s.isAtTerminator = true := by
  cases handler with
  | none =>
    cases before
    exact stops
  | catching name body =>
    cases name with
    | none => exact before.word_atWord.isAtTerminator_eq
    | some name => exact before.headed_atWord.isAtTerminator_eq

theorem tryCatch_parses {body : Block} {handler : Handler} (reads : body.Extends)
    (handles : handler.All Block.Extends) : (Statement.tryCatch body handler).Parses := by
  intro inside depth s t before within
  have here : s.AtWord "try" := before.word_atWord
  have split : Before s ((.word .tryWord :: body.lines) ++
      (handler.lines ++ [.word .endWord])) t := before
  obtain ⟨v, first, rest⟩ := split.append
  obtain ⟨w, second, final⟩ := rest.append
  obtain ⟨atEnd, stops, closing, -⟩ := final.closing
  obtain ⟨u, used, -, separator, block⟩ :=
    reads.worded inside first within (second.isAtTerminator_handler stops)
  have handled : outcome (catchClause (blockWithin inside depth)) v = .ok (handler.element?, w) :=
    outcome_catchClause handles second (Ahead.within first within) atEnd
  rw [statement, outcome_get_bind]
  simp only [here.2, String.reduceBEq, Bool.false_eq_true, Bool.or_self, if_false, if_true]
  rw [tryStatement, outcome_lift_bind_of_ok used, outcome_lift_bind_of_ok separator,
    outcome_bind_of_ok block, outcome_bind_of_ok handled, outcome_lift_bind_of_ok closing]
  rfl

end

end MatrixScript.Grammar
