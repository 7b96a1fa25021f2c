import MatrixScript.Proofs.Lexer.Brackets

/-!
Where tokens and failures of the lexer stand in the text.

A lexer that is in place in a text has the part before its place behind it, and every bracket that
it keeps open is written at the range kept with it. So the range of a token cuts out the significant
part of the token, and the range of a failure cuts out the bracket without partner.
-/

set_option autoImplicit false

namespace MatrixScript

namespace Lexeme

private theorem symbol_fixedText? (c : Char) {spelled : List Char}
    (fixed : (symbol c).kind.fixedText? = some spelled) : (symbol c).text = spelled := by
  unfold symbol at fixed ⊢
  split at fixed
  · rename_i kind found
    rw [singleOperator?_eq_some_iff.mp found] at fixed
    exact Option.some.inj fixed
  · cases fixed

private theorem operator_fixedText? (c : Char) (rest : List Char) {spelled : List Char}
    (fixed : (operator c rest).1.kind.fixedText? = some spelled) :
    (operator c rest).1.text = spelled := by
  revert fixed
  fun_cases operator c rest
  case case1 d rest kind found =>
    intro fixed
    rw [pairOperator?_eq_some_iff.mp found] at fixed
    exact Option.some.inj fixed
  case case2 => exact symbol_fixedText? c
  case case3 => exact symbol_fixedText? c

private theorem read_fixedText? (touchesOperand : Bool) (text : List Char) {spelled : List Char}
    (fixed : (read touchesOperand text).1.kind.fixedText? = some spelled) :
    (read touchesOperand text).1.text = spelled := by
  revert fixed
  fun_cases read touchesOperand text
  case case4 => exact fun fixed => Option.some.inj fixed
  case case7 c rest _ _ _ _ => exact operator_fixedText? c rest
  all_goals
    intro fixed
    cases fixed

end Lexeme

private theorem Kind.fixedText?_of_isOpening {kind : Kind} (opens : kind.isOpening = true) :
    ∃ spelled, kind.fixedText? = some spelled := by
  cases kind <;> first | exact ⟨_, rfl⟩ | cases opens

private theorem Kind.fixedText?_of_isClosing {kind : Kind} (closes : kind.isClosing = true) :
    ∃ spelled, kind.fixedText? = some spelled := by
  cases kind <;> first | exact ⟨_, rfl⟩ | cases closes

def Range.cut? (range : Range) (text : List Char) : Option (List Char) :=
  Text.slice? range.start range.stop text

/-- A failure at a bracket without partner: the bracket is written at the range. -/
def Failure.AtBracket (failure : Failure) (text : List Char) : Prop :=
  ∃ kind spelled, (failure.diagnostic.problem = .unmatchedClosingBracket kind ∨
      failure.diagnostic.problem = .unmatchedOpeningBracket kind) ∧
    kind.fixedText? = some spelled ∧ failure.diagnostic.range.cut? text = some spelled

namespace Context

variable {brackets after : List (Kind × Range)} {kind : Kind} {range : Range}

private theorem mem_of_matchBracket (matched : matchBracket brackets kind range = .ok after) :
    ∀ bracket ∈ after, bracket ∈ brackets ∨ kind.isOpening = true ∧ bracket = (kind, range) := by
  intro bracket member
  unfold matchBracket at matched
  split at matched
  · rw [← Except.ok.inj matched, List.mem_cons] at member
    exact member.symm.imp_right fun same => ⟨‹_›, same⟩
  split at matched
  · split at matched
    · split at matched
      · rw [← Except.ok.inj matched] at member
        exact Or.inl (List.mem_cons_of_mem _ member)
      · cases matched
    · cases matched
  split at matched
  · split at matched
    · cases matched
    · rw [← Except.ok.inj matched] at member
      exact Or.inl member
  · rw [← Except.ok.inj matched] at member
    exact Or.inl member

private theorem cases_of_matchBracket {failure : Failure}
    (failed : matchBracket brackets kind range = .error failure) :
    kind.isClosing = true ∧ failure = ⟨⟨.unmatchedClosingBracket kind, range⟩⟩ ∨
      ∃ opening place, (opening, place) ∈ brackets ∧
        failure = ⟨⟨.unmatchedOpeningBracket opening, place⟩⟩ := by
  unfold matchBracket at failed
  split at failed
  · cases failed
  split at failed
  · split at failed
    · split at failed
      · cases failed
      · exact Or.inl ⟨‹_›, (Except.error.inj failed).symm⟩
    · exact Or.inl ⟨‹_›, (Except.error.inj failed).symm⟩
  split at failed
  · split at failed
    · exact Or.inr ⟨_, _, List.mem_cons_self, (Except.error.inj failed).symm⟩
    · cases failed
  · cases failed

end Context

namespace Lexer

variable {text : List Char} {lexer : Lexer}

/-- A lexer at its place in a text. -/
structure InPlace (text : List Char) (lexer : Lexer) : Prop where
  front : ∃ front, front ++ lexer.rest = text ∧ lexer.position.offset = Text.byteSize front
  /-- Each open bracket is written at its range. -/
  brackets : ∀ bracket ∈ lexer.context.brackets, ∃ spelled,
    bracket.1.fixedText? = some spelled ∧ bracket.2.cut? text = some spelled

theorem start_inPlace (text : List Char) : InPlace text (start text) where
  front := ⟨[], rfl, rfl⟩
  brackets _ member := nomatch member

namespace InPlace

private theorem cut_reading (place : InPlace text lexer) :
    (lexer.reading.token.span lexer.position.offset).cut? text =
      some lexer.reading.lexeme.text := by
  obtain ⟨front, rfl, offset⟩ := place.front
  have parts : lexer.reading.text ++ lexer.next.2.rest = lexer.rest := by
    rw [← taken_eq]
    exact lexer.taken_append
  have slice := Text.slice?_append (front ++ Fragment.textOf lexer.reading.leading)
    lexer.reading.lexeme.text (Fragment.textOf lexer.reading.trailing ++ lexer.next.2.rest)
  rw [Reading.token_span, offset, Range.cut?, ← parts]
  simpa [Range.ofLength, Reading.text] using slice

private theorem spelled_reading (place : InPlace text lexer) {spelled : List Char}
    (fixed : lexer.reading.token.kind.fixedText? = some spelled) :
    (lexer.reading.token.span lexer.position.offset).cut? text = some spelled := by
  rw [place.cut_reading]
  refine congrArg some ?_
  simp only [reading, Context.read] at fixed ⊢
  unfold Context.readLexeme at fixed ⊢
  split at fixed
  · cases fixed
  · simp only [*, Bool.false_eq_true, if_false]
    exact Lexeme.read_fixedText? _ _ fixed

/-- Whether a call yields a token or fails, the lexer stays in place. -/
theorem next (place : InPlace text lexer) : InPlace text lexer.next.2 where
  front := by
    obtain ⟨front, whole, offset⟩ := place.front
    refine ⟨front ++ lexer.taken, ?_, ?_⟩
    · rw [List.append_assoc, lexer.taken_append, whole]
    · rw [next_position, Position.offset_advance, offset, taken_eq, Text.byteSize_append]
  brackets := by
    cases yields : lexer.next.1 with
    | error failure =>
      have kept : lexer.next.2.context.brackets = lexer.context.brackets := by
        rw [next_eq] at yields ⊢
        cases found : lexer.bracketsAfter with
        | error failure => exact lexer.entered_brackets
        | ok brackets => simp [found] at yields
      rw [kept]
      exact place.brackets
    | ok placed =>
      have token := next_eq_ok yields
      intro bracket member
      rcases Context.mem_of_matchBracket (bracketsAfter_of_next yields) bracket member with
        before | ⟨opens, rfl⟩
      · exact place.brackets bracket before
      · obtain ⟨spelled, fixed⟩ := Kind.fixedText?_of_isOpening opens
        subst token
        exact ⟨spelled, fixed, place.spelled_reading fixed⟩

private theorem atBracket_of_next (place : InPlace text lexer) {failure : Failure}
    (fails : lexer.next.1 = .error failure) : failure.AtBracket text := by
  have matched : lexer.bracketsAfter = .error failure := by
    rw [next_eq] at fails
    cases found : lexer.bracketsAfter with
    | error other => simpa [found] using fails
    | ok brackets => simp [found] at fails
  rw [bracketsAfter, entered_brackets] at matched
  rcases Context.cases_of_matchBracket matched with ⟨closes, rfl⟩ | ⟨opening, range, member, rfl⟩
  · obtain ⟨spelled, fixed⟩ := Kind.fixedText?_of_isClosing closes
    exact ⟨_, spelled, Or.inl rfl, fixed, place.spelled_reading fixed⟩
  · obtain ⟨spelled, fixed, cut⟩ := place.brackets (opening, range) member
    exact ⟨opening, spelled, Or.inr rfl, fixed, cut⟩

/-- The range of each token cuts out its significant part, and a failure shows a bracket. -/
theorem tokens (place : InPlace text lexer) :
    (∀ stream, lexer.tokens = .ok stream → ∀ placed ∈ stream.toList,
      placed.token.trimmed?.isSome = true ∧
        placed.range.cut? text = placed.token.trimmed?) ∧
      ∀ failure, lexer.tokens = .error failure → failure.AtBracket text := by
  have token {lexer : Lexer} (place : InPlace text lexer) {placed : PlacedToken}
      (yields : lexer.next.1 = .ok placed) : placed.token.trimmed?.isSome = true ∧
        placed.range.cut? text = placed.token.trimmed? := by
    rw [next_eq_ok yields, Reading.token_trimmed?]
    exact ⟨rfl, place.cut_reading⟩
  fun_induction Lexer.tokens lexer with
  | case1 lexer failure fails =>
    refine ⟨fun stream ok => (by cases ok), fun other same => ?_⟩
    rw [← Except.error.inj same]
    exact place.atBracket_of_next fails
  | case2 lexer placed yields isEnd =>
    refine ⟨fun stream ok => ?_, fun failure fails => (by cases fails)⟩
    rw [← Except.ok.inj ok]
    simpa [TokenStream.toList] using token place yields
  | case3 lexer placed yields notEnd ih =>
    obtain ⟨tokens, failures⟩ := ih place.next
    cases later : lexer.next.2.tokens with
    | error failure =>
      refine ⟨fun stream ok => by simp [Except.map] at ok, fun other same => ?_⟩
      rw [← Except.error.inj same]
      exact failures failure later
    | ok rest =>
      refine ⟨fun stream ok => ?_, fun failure fails => by simp [Except.map] at fails⟩
      rw [← Except.ok.inj ok]
      simp only [TokenStream.toList, TokenStream.push, List.cons_append, List.forall_mem_cons]
      exact ⟨token place yields, tokens rest later⟩

end InPlace

end Lexer

end MatrixScript
