import MatrixScript.Proofs.Lexer.Line
import MatrixScript.Proofs.Lexer.Tiling

/-!
A lexer can start again at the end of a line.

After a text whose last token ends its line nothing of the context is left: brackets are closed, no
command is open, and a line and a statement start. The tokens of a longer text are then those of the
first part and, moved further on, those of the second.
-/

set_option autoImplicit false

namespace MatrixScript

open Text (LineEnded)

/-- A place further on by a number of bytes and lines, in the same column. -/
def Position.shift (position : Position) (bytes lines : Nat) : Position :=
  ⟨position.offset + bytes, position.line + lines, position.column⟩

@[simp]
theorem Position.offset_shift (position : Position) (bytes lines : Nat) :
    (position.shift bytes lines).offset = position.offset + bytes := rfl

private theorem Position.next_shift (position : Position) (bytes lines : Nat) (c : Char) :
    (position.shift bytes lines).next c = (position.next c).shift bytes lines := by
  unfold next shift
  split <;> simp <;> omega

private theorem Position.advance_shift (position : Position) (bytes lines : Nat)
    (text : List Char) :
    (position.shift bytes lines).advance text = (position.advance text).shift bytes lines := by
  induction text generalizing position with
  | nil => rfl
  | cons c text ih =>
    have first := ih (position.next c)
    rw [← next_shift] at first
    exact first

private theorem Position.advance_lineEnded {text : List Char} (ended : LineEnded text)
    (position : Position) :
    position.advance text =
      ⟨position.offset + Text.byteSize text, position.line + text.count '\n', 0⟩ := by
  induction text generalizing position with
  | nil => exact absurd rfl ended.ne_nil
  | cons c rest ih =>
    by_cases last : rest = []
    · subst last
      have feed : c = '\n' := by simpa [LineEnded] using ended
      subst feed
      simp [advance, next]
    · have step := ih (LineEnded.of_append (show LineEnded ([c] ++ rest) from ended) last)
        (position.next c)
      simp only [advance, List.foldl_cons] at step ⊢
      rw [step]
      by_cases feed : c = '\n'
      · simp only [next, feed, if_true, Text.byteSize_cons, List.count_cons_self,
          Position.mk.injEq, and_true]
        omega
      · simp only [next, feed, if_false, Text.byteSize_cons, ne_eq, not_false_eq_true,
          List.count_cons_of_ne, Position.mk.injEq, and_true]
        omega

def PlacedToken.shift (placed : PlacedToken) (bytes lines : Nat) : PlacedToken :=
  { placed with position := placed.position.shift bytes lines }

theorem PlacedToken.range_shift {placed : PlacedToken} (fits : placed.token.Fits)
    (bytes lines : Nat) : (placed.shift bytes lines).range = placed.range.shift bytes := by
  unfold Token.Fits at fits
  simp only [range, shift, fullStart, Token.span, Range.shift, Position.offset_shift,
    Range.mk.injEq]
  omega

def Failure.shift (failure : Failure) (bytes : Nat) : Failure := ⟨failure.diagnostic.shift bytes⟩

def TokenStream.shift (stream : TokenStream) (bytes lines : Nat) : TokenStream :=
  ⟨stream.tokens.map (·.shift bytes lines), stream.eof.shift bytes lines⟩

def TokenStream.prepend (stream : TokenStream) (front : List PlacedToken) : TokenStream :=
  ⟨front ++ stream.tokens, stream.eof⟩

def Context.shift (context : Context) (bytes : Nat) : Context :=
  { context with
    brackets := context.brackets.map fun bracket => (bracket.1, bracket.2.shift bytes) }

namespace Context

private theorem afterLeading_shift (context : Context) (bytes : Nat) (leading : List Fragment) :
    (context.shift bytes).afterLeading leading = (context.afterLeading leading).shift bytes := by
  unfold afterLeading
  split <;> rfl

private theorem afterToken_shift (context : Context) (bytes : Nat) (reading : Reading) :
    (context.shift bytes).afterToken reading = (context.afterToken reading).shift bytes := by
  simp only [afterToken, shift, commandAfter, List.isEmpty_map]
  split <;> rfl

private theorem read_shift (context : Context) (bytes : Nat) (text : List Char) :
    (context.shift bytes).read text = context.read text := by
  have lexeme (entered : Context) (text : List Char) :
      (entered.shift bytes).readLexeme text = entered.readLexeme text := by
    have word : (entered.shift bytes).expectsBareWord text = entered.expectsBareWord text := by
      simp [expectsBareWord, shift]
    simp only [readLexeme, word]
    rfl
  simp only [read, afterLeading_shift, lexeme]
  rfl

private theorem matchBracket_shift (brackets : List (Kind × Range)) (kind : Kind) (range : Range)
    (bytes : Nat) :
    matchBracket (brackets.map fun bracket => (bracket.1, bracket.2.shift bytes)) kind
        (range.shift bytes) =
      match matchBracket brackets kind range with
      | .ok brackets => .ok (brackets.map fun bracket => (bracket.1, bracket.2.shift bytes))
      | .error failure => .error (failure.shift bytes) := by
  unfold matchBracket
  split
  · rfl
  split
  · cases brackets with
    | nil => rfl
    | cons innermost outer =>
      simp only [List.map_cons]
      split <;> rfl
  split
  · cases brackets <;> rfl
  · rfl

private theorem readLexeme_append_more {context : Context} {c : Char} {rest : List Char}
    (ended : LineEnded (c :: rest)) (other : c ≠ '\n') (more : List Char) :
    context.readLexeme (c :: rest ++ more) =
        ((context.readLexeme (c :: rest)).1, (context.readLexeme (c :: rest)).2 ++ more) ∧
      LineEnded (context.readLexeme (c :: rest)).2 := by
  have word : context.expectsBareWord (c :: rest ++ more) =
      context.expectsBareWord (c :: rest) := by
    unfold expectsBareWord
    split
    · rfl
    · rw [Lexeme.startsBareWord_append ended]
    · rfl
  unfold readLexeme
  rw [word]
  split
  · exact Lexeme.readBareWord_staysInLine ended more
  · exact Lexeme.read_staysInLine _ ended other more

theorem endsLine_read (context : Context) (text : List Char) :
    (context.read text).endsLine =
      (context.read text).trailing.getLast?.any (·.kind == .newline) := by
  simp only [Reading.endsLine, Token.endsLine, Reading.token, Fragment.pieces, List.getLast?_map,
    Option.any_map]

private theorem read_append_more {context : Context} {text : List Char} (ended : LineEnded text)
    (notEnd : (context.read text).lexeme.kind ≠ .eof)
    (inside : (context.read text).rest ≠ [] ∨ (context.read text).endsLine = true)
    (more : List Char) :
    context.read (text ++ more) =
      { context.read text with rest := (context.read text).rest ++ more } := by
  have left : context.significant text ≠ [] := mt (read_kind_eq_eof_iff context text).mpr notEnd
  have leading := @Fragment.run_append_more false context.atLineStart text ended more (Or.inl left)
  obtain ⟨c, rest, front⟩ := List.exists_cons_of_ne_nil left
  have parts := Fragment.run_append false context.atLineStart text
  rw [← parts] at ended
  have restEnded := ended.of_append left
  have other : c ≠ '\n' := by
    rintro rfl
    exact absurd (Fragment.run_rest front).2 (by decide)
  rw [endsLine_read] at inside
  simp only [significant, Fragment.leading] at front
  rw [front] at restEnded
  simp only [read, Fragment.leading, Fragment.trailing, leading, front] at inside ⊢
  obtain ⟨lexeme, lexemeEnded⟩ :=
    @readLexeme_append_more (context.afterLeading (Fragment.run false context.atLineStart text).1)
      c rest restEnded other more
  rw [lexeme]
  have trailing := @Fragment.run_append_more true false _ lexemeEnded more (by
    rcases inside with inside | inside
    · exact Or.inl inside
    · exact Or.inr ⟨rfl, inside⟩)
  simp only [trailing]

end Context

namespace Lexer

def shift (lexer : Lexer) (bytes lines : Nat) : Lexer :=
  ⟨lexer.rest, lexer.position.shift bytes lines, lexer.context.shift bytes⟩

private theorem reading_shift (lexer : Lexer) (bytes lines : Nat) :
    (lexer.shift bytes lines).reading = lexer.reading :=
  lexer.context.read_shift bytes lexer.rest

private theorem entered_shift (lexer : Lexer) (bytes lines : Nat) :
    (lexer.shift bytes lines).entered = lexer.entered.shift bytes := by
  rw [entered, reading_shift]
  exact lexer.context.afterLeading_shift bytes _

def shiftResult (result : Except Failure PlacedToken) (bytes lines : Nat) :
    Except Failure PlacedToken :=
  match result with
  | .ok placed => .ok (placed.shift bytes lines)
  | .error failure => .error (failure.shift bytes)

private theorem next_shift (lexer : Lexer) (bytes lines : Nat) :
    (lexer.shift bytes lines).next =
      (shiftResult lexer.next.1 bytes lines, lexer.next.2.shift bytes lines) := by
  have brackets : (lexer.shift bytes lines).bracketsAfter =
      match lexer.bracketsAfter with
      | .ok brackets => .ok (brackets.map fun bracket => (bracket.1, bracket.2.shift bytes))
      | .error failure => .error (failure.shift bytes) := by
    rw [bracketsAfter, bracketsAfter, ← Context.matchBracket_shift,
      ← PlacedToken.range_shift lexer.reading.token_fits bytes lines, entered_shift,
      reading_shift]
    rfl
  rw [next_eq, next_eq, brackets, entered_shift, reading_shift]
  cases lexer.bracketsAfter with
  | error failure =>
    simp only [shiftResult, shift, Position.advance_shift]
  | ok found =>
    simp only [shiftResult, shift, PlacedToken.shift, Position.advance_shift,
      ← Context.afterToken_shift]
    rfl

private theorem tokens_shift (lexer : Lexer) (bytes lines : Nat) :
    (lexer.shift bytes lines).tokens =
      match lexer.tokens with
      | .ok stream => .ok (stream.shift bytes lines)
      | .error failure => .error (failure.shift bytes) := by
  fun_induction Lexer.tokens lexer with
  | case1 lexer failure fails =>
    have result := congrArg Prod.fst (lexer.next_shift bytes lines)
    rw [fails] at result
    rw [tokens_of_error result]
  | case2 lexer placed yields isEnd =>
    have result := congrArg Prod.fst (lexer.next_shift bytes lines)
    rw [yields] at result
    rw [tokens_of_ok result, if_pos (show (placed.shift bytes lines).kind = .eof from isEnd)]
    rfl
  | case3 lexer placed yields notEnd ih =>
    have result := congrArg Prod.fst (lexer.next_shift bytes lines)
    have later := congrArg Prod.snd (lexer.next_shift bytes lines)
    rw [yields] at result
    rw [tokens_of_ok result, if_neg (show (placed.shift bytes lines).kind ≠ .eof from notEnd)]
    simp only at later
    rw [later, ih]
    cases lexer.next.2.tokens <;> rfl

def extend (lexer : Lexer) (more : List Char) : Lexer :=
  { lexer with rest := lexer.rest ++ more }

private theorem next_extend {lexer : Lexer} (ended : LineEnded lexer.rest)
    (notEnd : lexer.reading.lexeme.kind ≠ .eof)
    (inside : lexer.reading.rest ≠ [] ∨ lexer.reading.endsLine = true) (more : List Char) :
    (lexer.extend more).next = (lexer.next.1, lexer.next.2.extend more) := by
  have same : (lexer.extend more).reading =
      { lexer.reading with rest := lexer.reading.rest ++ more } :=
    Context.read_append_more ended notEnd inside more
  have brackets : (lexer.extend more).bracketsAfter = lexer.bracketsAfter := by
    rw [bracketsAfter, entered, same]
    rfl
  rw [next_eq, next_eq, brackets, entered, same]
  cases lexer.bracketsAfter <;> rfl

private theorem restarts {lexer : Lexer} {placed : PlacedToken} {stream : TokenStream}
    (yields : lexer.next.1 = .ok placed) (endsLine : placed.token.endsLine = true)
    (done : lexer.next.2.rest = []) (later : lexer.next.2.tokens = .ok stream) :
    lexer.next.2.context = {} := by
  have closed : lexer.next.2.context.brackets = [] := by
    obtain ⟨-, -, answer⟩ := next_at_end done
    unfold AnswersEnd at answer
    split at answer
    · assumption
    · rw [tokens_of_error answer] at later
      simp at later
  have token := next_eq_ok yields
  subst token
  have trailing : lexer.reading.trailing.isEmpty = false := by
    rw [← Bool.not_eq_true, List.isEmpty_iff]
    intro none
    simp [Token.endsLine, Reading.token, none, Fragment.pieces] at endsLine
  have line : lexer.reading.endsLine = true := endsLine
  rw [next_eq] at closed yields ⊢
  cases found : lexer.bracketsAfter with
  | error failure => simp [found] at yields
  | ok brackets =>
    simp only [found, Context.afterToken, line, Bool.true_or, if_true, Context.endStatement]
      at closed ⊢
    simp [closed, trailing]

private theorem tokens_extend {lexer : Lexer} {stream : TokenStream}
    (ok : lexer.tokens = .ok stream)
    (ended : LineEnded lexer.rest) (noTrivia : stream.eof.token.text = [])
    (lines : ∀ last ∈ stream.tokens.getLast?, last.token.endsLine = true) (more : List Char) :
    (lexer.extend more).tokens =
      (Lexer.tokens ⟨more, lexer.position.advance lexer.rest, {}⟩).map
        (·.prepend stream.tokens) := by
  fun_induction Lexer.tokens lexer generalizing stream with
  | case1 => simp at ok
  | case2 lexer placed yields isEnd =>
    simp only [Except.ok.injEq] at ok
    subst ok
    have whole : lexer.tokens = .ok ⟨[], placed⟩ := by rw [tokens_of_ok yields, if_pos isEnd]
    obtain ⟨texts, -⟩ := tokens_ok whole
    rw [← texts] at ended
    exact absurd (by simpa [TokenStream.toList] using noTrivia) ended.ne_nil
  | case3 lexer placed yields notEnd ih =>
    cases later : lexer.next.2.tokens with
    | error failure => simp [later, Except.map] at ok
    | ok rest =>
      simp only [later, Except.map, Except.ok.injEq] at ok
      subst ok
      have token := next_eq_ok yields
      have read : lexer.reading.rest = lexer.next.2.rest := (next_rest lexer).symm
      have significant : lexer.reading.lexeme.kind ≠ .eof := by
        rw [token] at notEnd
        exact notEnd
      have parts := lexer.taken_append
      have place : lexer.next.2.position.advance lexer.next.2.rest =
          lexer.position.advance lexer.rest := by
        rw [next_position, ← Position.advance_append, ← taken_eq, parts]
      by_cases done : lexer.next.2.rest = []
      · -- The last token: it ends its line, and what follows starts afresh.
        have alone : rest.tokens = [] := by
          obtain ⟨texts, -, kinds, -⟩ := tokens_ok later
          obtain ⟨calls, bound⟩ := steps_eq_of_tokens_ok later
          rw [done] at bound
          exact List.length_eq_zero_iff.mp (Nat.le_zero.mp bound)
        have endsLine : placed.token.endsLine = true := lines placed (by
          simp [TokenStream.push, alone])
        have line : lexer.reading.endsLine = true := by
          rw [token] at endsLine
          exact endsLine
        have step := next_extend ended significant (Or.inr line) more
        have fresh : lexer.next.2.extend more =
            ⟨more, lexer.position.advance lexer.rest, {}⟩ := by
          rw [← place, done, extend, done, restarts yields endsLine done later]
          rfl
        rw [tokens_of_ok (by rw [step]; exact yields), if_neg notEnd, step, fresh]
        cases Lexer.tokens ⟨more, lexer.position.advance lexer.rest, {}⟩ with
        | error failure => rfl
        | ok back => simp [Except.map, TokenStream.push, TokenStream.prepend, alone]
      · have restEnded : LineEnded lexer.next.2.rest := by
          rw [← parts] at ended
          exact ended.of_append done
        have tokens : rest.tokens ≠ [] := by
          intro none
          obtain ⟨texts, -⟩ := tokens_ok later
          rw [TokenStream.toList, none] at texts
          exact done (by rw [← texts]; simpa [TokenStream.push] using noTrivia)
        have step := next_extend ended significant (Or.inl (by rw [read]; exact done)) more
        have same := ih later restEnded noTrivia (by
          intro last member
          refine lines last ?_
          rw [TokenStream.push, List.getLast?_cons_of_ne_nil tokens]
          exact member)
        rw [tokens_of_ok (by rw [step]; exact yields), if_neg notEnd, step, same, place]
        cases Lexer.tokens ⟨more, lexer.position.advance lexer.rest, {}⟩ <;> rfl

private theorem reading_lineEnded {lexer : Lexer} (endsLine : lexer.reading.endsLine = true) :
    LineEnded lexer.reading.text := by
  rw [reading, Context.endsLine_read, Option.any_eq_true] at endsLine
  obtain ⟨last, found, newline⟩ := endsLine
  obtain ⟨front, split⟩ := List.getLast?_eq_some_iff.mp found
  have member : last ∈ (lexer.context.read lexer.rest).trailing := by
    rw [split]
    simp
  have feed : LineEnded last.text := Fragment.run_newline last member (by simpa using newline)
  have trailing : LineEnded (Fragment.textOf (lexer.context.read lexer.rest).trailing) := by
    rw [split, Fragment.textOf, List.flatMap_append, List.flatMap_singleton]
    exact feed.append _
  exact trailing.append _

private theorem tokens_lineEnded {lexer : Lexer} {stream : TokenStream}
    (ok : lexer.tokens = .ok stream) :
    ∀ placed ∈ stream.toList, placed.token.endsLine = true → LineEnded placed.token.text := by
  intro placed member endsLine
  obtain ⟨source, read⟩ := tokens_read ok placed member
  rw [read] at endsLine ⊢
  exact reading_lineEnded endsLine

theorem tokens_fit {lexer : Lexer} {stream : TokenStream} (ok : lexer.tokens = .ok stream) :
    ∀ placed ∈ stream.toList, placed.token.Fits := by
  intro placed member
  obtain ⟨source, read⟩ := tokens_read ok placed member
  rw [read]
  exact source.reading.token_fits

end Lexer

/-- A text that stops at the end of a line: it is empty, or its last token ends its line and no
trivia follows. -/
def TokenStream.StopsAtLine (stream : TokenStream) (text : List Char) : Prop :=
  text = [] ∨ stream.eof.token.text = [] ∧
    stream.tokens.getLast?.any (·.token.endsLine) = true

instance (stream : TokenStream) (text : List Char) : Decidable (stream.StopsAtLine text) :=
  inferInstanceAs (Decidable (_ ∨ _))

private theorem Lexer.tokens_eof_diagnostics {lexer : Lexer} {stream : TokenStream}
    (ok : lexer.tokens = .ok stream) (noTrivia : stream.eof.token.text = []) :
    stream.eof.diagnostics = [] := by
  fun_induction Lexer.tokens lexer generalizing stream with
  | case1 => simp at ok
  | case2 lexer placed yields isEnd =>
    simp only [Except.ok.injEq] at ok
    subst ok
    have token := next_eq_ok yields
    subst token
    have parts := lexer.taken_append
    rw [next_rest_of_eof isEnd, List.append_nil, taken_eq] at parts
    have done : lexer.rest = [] := by
      rw [← parts]
      exact noTrivia
    simp [PlacedToken.diagnostics, reading, done, Reading.token, Reading.diagnostics,
      Reading.found, Fragment.diagnostics]
  | case3 lexer placed yields notEnd ih =>
    cases later : lexer.next.2.tokens with
    | error failure => simp [later, Except.map] at ok
    | ok rest =>
      simp only [later, Except.map, Except.ok.injEq] at ok
      subst ok
      exact @ih rest later noTrivia

private theorem PlacedToken.diagnostics_shift (placed : PlacedToken) (bytes lines : Nat) :
    (placed.shift bytes lines).diagnostics = placed.diagnostics.map (·.shift bytes) := by
  simp only [diagnostics, shift, fullStart, Position.offset_shift, List.map_map]
  apply List.map_congr_left
  intro diagnostic _
  simp [Diagnostic.shift, Range.shift, Nat.add_assoc]

private theorem TokenStream.toList_shift (stream : TokenStream) (bytes lines : Nat) :
    (stream.shift bytes lines).toList = stream.toList.map (·.shift bytes lines) := by
  simp [toList, shift]

private theorem TokenStream.toList_prepend (stream : TokenStream) (front : List PlacedToken) :
    (stream.prepend front).toList = front ++ stream.toList := by
  simp [toList, prepend]

theorem TokenStream.diagnostics_shift (stream : TokenStream) (bytes lines : Nat) :
    (stream.shift bytes lines).diagnostics = stream.diagnostics.map (·.shift bytes) := by
  simp only [diagnostics, toList_shift, List.flatMap_map, List.map_flatMap,
    PlacedToken.diagnostics_shift]

theorem TokenStream.diagnostics_prepend (stream : TokenStream) (front : List PlacedToken) :
    (stream.prepend front).diagnostics =
      front.flatMap PlacedToken.diagnostics ++ stream.diagnostics := by
  simp only [diagnostics, toList_prepend, List.flatMap_append]

private theorem lineEnded_of_stopsAtLine {text : List Char} {stream : TokenStream}
    (lexed : tokenize text = .ok stream) (noTrivia : stream.eof.token.text = [])
    (endsLine : stream.tokens.getLast?.any (·.token.endsLine) = true) : LineEnded text := by
  rw [Option.any_eq_true] at endsLine
  obtain ⟨last, found, endsLine⟩ := endsLine
  obtain ⟨texts, -⟩ := Lexer.tokens_ok lexed
  obtain ⟨front, split⟩ := List.getLast?_eq_some_iff.mp found
  have feed : LineEnded last.token.text :=
    Lexer.tokens_lineEnded lexed last (by simp [TokenStream.toList, split]) endsLine
  have whole : text = front.flatMap (·.token.text) ++ last.token.text := by
    rw [show text = (Lexer.start text).rest from rfl, ← texts]
    simp [TokenStream.toList, split, noTrivia]
  rw [whole]
  exact feed.append _

private theorem tokenize_nil_tokens {stream : TokenStream} (lexed : tokenize [] = .ok stream) :
    stream.tokens = [] := by
  obtain ⟨-, bound⟩ := Lexer.steps_eq_of_tokens_ok lexed
  exact List.length_eq_zero_iff.mp (Nat.le_zero.mp bound)

theorem tokenize_head_kind {text : List Char} {stream : TokenStream}
    (lexed : tokenize text = .ok stream) :
    ∀ placed ∈ stream.tokens.head?, placed.kind ≠ .unquotedStringLiteral := by
  have first : (Lexer.start text).reading.lexeme.kind ≠ .unquotedStringLiteral := by
    have command (leading : List Fragment) :
        (({} : Context).afterLeading leading).command = .none := by
      unfold Context.afterLeading
      split <;> rfl
    have plain (leading : List Fragment) (text : List Char) :
        (({} : Context).afterLeading leading).expectsBareWord text = false := by
      simp [Context.expectsBareWord, command]
    simp only [Lexer.reading, Lexer.start, Context.read, Context.readLexeme, plain,
      Bool.false_eq_true, if_false]
    exact Lexeme.read_kind_ne_unquoted _ _
  intro placed found
  unfold tokenize at lexed
  unfold Lexer.tokens at lexed
  split at lexed
  · simp at lexed
  · rename_i token yields
    split at lexed
    · simp only [Except.ok.injEq] at lexed
      rw [← lexed] at found
      simp at found
    · cases later : (Lexer.start text).next.2.tokens with
      | error failure => simp [later, Except.map] at lexed
      | ok rest =>
        simp only [later, Except.map, Except.ok.injEq] at lexed
        simp only [← lexed, TokenStream.push, List.head?_cons, Option.mem_def,
          Option.some.injEq] at found
        rw [← found, Lexer.next_eq_ok yields]
        exact first

/-- Past the end of a line the tokens of a longer text are those of the rest, further on. -/
theorem tokenize_append {front : List Char} {stream : TokenStream}
    (lexed : tokenize front = .ok stream) (stops : stream.StopsAtLine front) (back : List Char) :
    tokenize (front ++ back) =
      match tokenize back with
      | .ok later => .ok ((later.shift (Text.byteSize front) (front.count '\n')).prepend
          stream.tokens)
      | .error failure => .error (failure.shift (Text.byteSize front)) := by
  have placed : tokenize (front ++ back) =
      ((Lexer.start back).shift (Text.byteSize front) (front.count '\n')).tokens.map
        (·.prepend stream.tokens) := by
    rcases stops with rfl | ⟨noTrivia, endsLine⟩
    · have same : (Lexer.start back).shift (Text.byteSize []) (List.count '\n' []) =
          Lexer.start back := rfl
      rw [same, tokenize_nil_tokens lexed, List.nil_append, tokenize]
      cases (Lexer.start back).tokens <;> rfl
    · have ended := lineEnded_of_stopsAtLine lexed noTrivia endsLine
      have whole := Lexer.tokens_extend lexed ended noTrivia (by
        intro last found
        rw [Option.mem_def] at found
        simpa [found] using endsLine) back
      have place : (Lexer.start front).position.advance (Lexer.start front).rest =
          Position.start.shift (Text.byteSize front) (front.count '\n') := by
        show Position.start.advance front = _
        rw [Position.advance_lineEnded ended]
        rfl
      rw [place] at whole
      exact whole
  rw [placed, Lexer.tokens_shift]
  unfold tokenize
  cases (Lexer.start back).tokens <;> rfl

/-- The end of a text that stops at the end of a line has nothing to report. -/
theorem diagnostics_of_stopsAtLine {front : List Char} {stream : TokenStream}
    (lexed : tokenize front = .ok stream) (stops : stream.StopsAtLine front) :
    stream.diagnostics = stream.tokens.flatMap PlacedToken.diagnostics := by
  have noTrivia : stream.eof.token.text = [] := by
    rcases stops with rfl | ⟨noTrivia, -⟩
    · obtain ⟨texts, -⟩ := Lexer.tokens_ok lexed
      simpa [TokenStream.toList, tokenize_nil_tokens lexed, Lexer.start] using texts
    · exact noTrivia
  simp [TokenStream.diagnostics, TokenStream.toList, Lexer.tokens_eof_diagnostics lexed noTrivia]

/-- Cutting a text into tokens starts again at the end of a line: what follows is cut as if it stood
alone, fails if it fails alone, and has its places moved by the text before it. -/
theorem tokenize_restarts {front : List Char} {stream : TokenStream}
    (lexed : tokenize front = .ok stream) (stops : stream.StopsAtLine front) (back : List Char) :
    ((∃ whole, tokenize (front ++ back) = .ok whole) ↔ ∃ later, tokenize back = .ok later) ∧
    (∀ later, tokenize back = .ok later →
      ∃ whole, tokenize (front ++ back) = .ok whole ∧
        whole.toList = stream.tokens ++
          later.toList.map (·.shift (Text.byteSize front) (front.count '\n')) ∧
        whole.diagnostics = stream.diagnostics ++
          later.diagnostics.map (·.shift (Text.byteSize front))) ∧
    (∀ failure, tokenize back = .error failure →
      tokenize (front ++ back) = .error (failure.shift (Text.byteSize front))) := by
  have whole := tokenize_append lexed stops back
  refine ⟨?_, ?_, ?_⟩
  · cases lexedBack : tokenize back <;> simp [whole, lexedBack]
  · intro later lexedBack
    rw [lexedBack] at whole
    refine ⟨_, whole, ?_, ?_⟩
    · rw [TokenStream.toList_prepend, TokenStream.toList_shift]
    · rw [TokenStream.diagnostics_prepend, TokenStream.diagnostics_shift,
        diagnostics_of_stopsAtLine lexed stops]
  · intro failure lexedBack
    rw [whole, lexedBack]

/-- A transposition at the end of a line, a string and an open bracket at the start of the next. -/
theorem tokenize_restarts_transpose :
    ∃ stream, tokenize "x'\n".toList = .ok stream ∧ stream.StopsAtLine "x'\n".toList ∧
      (tokenize "(".toList).isOk = false ∧
      ∀ failure, tokenize "(".toList = .error failure →
        tokenize ("x'\n".toList ++ "(".toList) = .error (failure.shift 3) := by
  have stops : (tokenize "x'\n".toList).toOption.any
      (fun stream => decide (stream.StopsAtLine "x'\n".toList)) = true := by
    decide +kernel
  obtain ⟨stream, lexed, stops⟩ := exists_ok_of_any stops
  have stopped : stream.StopsAtLine "x'\n".toList := of_decide_eq_true stops
  exact ⟨stream, lexed, stopped, by decide +kernel,
    (tokenize_restarts lexed stopped "(".toList).2.2⟩

end MatrixScript
