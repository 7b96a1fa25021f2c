import MatrixScript.Proofs.Lexer.Brackets
import MatrixScript.Proofs.Lexer.Problems
import MatrixScript.Proofs.Lexer.Writing

/-!
Tokens that are listed in square brackets, with blanks between them.

Inside brackets a line break ends no command and opens none, and a blank before a single quote makes
it open a string. So a text of tokens that are listed in brackets is cut into those tokens again,
whatever the blanks are that part them.
-/

set_option autoImplicit false

namespace MatrixScript

/-- A space, a tab or a line break. -/
inductive Blank where
  | space
  | tab
  | lineFeed
  | crlf
  deriving DecidableEq, Repr

namespace Blank

def text : Blank → List Char
  | .space => [' ']
  | .tab => ['\t']
  | .lineFeed => ['\n']
  | .crlf => ['\r', '\n']

def textOf (blanks : List Blank) : List Char := blanks.flatMap text

def isHorizontal (blank : Blank) : Bool := blank == .space || blank == .tab

variable {more : List Char}

private theorem textOf_cons (blank : Blank) (blanks : List Blank) :
    textOf (blank :: blanks) ++ more = blank.text ++ (textOf blanks ++ more) := by
  simp [textOf]

private theorem dropWhile_textOf (absent : Fragment.Absent more) (blanks : List Blank) :
    (textOf blanks ++ more).dropWhile Fragment.isHorizontal =
      textOf (blanks.dropWhile isHorizontal) ++ more := by
  induction blanks with
  | nil =>
    cases more with
    | nil => rfl
    | cons c rest => simp [textOf, Fragment.Absent.not_isHorizontal absent]
  | cons blank blanks ih =>
    rw [textOf_cons]
    cases blank with
    | space => exact ih
    | tab => exact ih
    | lineFeed => rfl
    | crlf => rfl

private theorem next?_textOf (absent : Fragment.Absent more) (atLineStart : Bool) (blank : Blank)
    (blanks : List Blank) :
    ∃ fragment later, Fragment.next? atLineStart (textOf (blank :: blanks) ++ more) =
      some (fragment, textOf later ++ more) ∧ later.length ≤ blanks.length := by
  have shorter := (List.dropWhile_sublist isHorizontal (l := blanks)).length_le
  have horizontal := dropWhile_textOf absent blanks
  rw [textOf_cons]
  cases blank with
  | space => exact ⟨_, blanks.dropWhile isHorizontal, by rw [← horizontal]; rfl, shorter⟩
  | tab => exact ⟨_, blanks.dropWhile isHorizontal, by rw [← horizontal]; rfl, shorter⟩
  | lineFeed => exact ⟨_, blanks, rfl, Nat.le_refl _⟩
  | crlf => exact ⟨_, blanks, rfl, Nat.le_refl _⟩

private theorem run_textOf (absent : Fragment.Absent more) (trailing atLineStart : Bool)
    (blanks : List Blank) :
    ∃ later, (Fragment.run trailing atLineStart (textOf blanks ++ more)).2 = textOf later ++ more ∧
      (trailing = false → later = []) := by
  -- A stretch of spaces and tabs takes several blanks at once, so the induction is on their number.
  induction size : blanks.length using Nat.strongRecOn generalizing atLineStart blanks with
  | ind size ih =>
    cases blanks with
    | nil =>
      have none := @Fragment.run_of_none trailing atLineStart more (absent _)
      exact ⟨[], congrArg Prod.snd none, fun _ => rfl⟩
    | cons blank blanks =>
      obtain ⟨fragment, later, found, shorter⟩ := next?_textOf absent atLineStart blank blanks
      rw [List.length_cons] at size
      rw [Fragment.run_of_some found]
      split
      · rename_i ends
        refine ⟨later, rfl, fun before => ?_⟩
        simp [before] at ends
      · exact ih later.length (by omega) _ later rfl

private theorem trailing_ne_nil (absent : Fragment.Absent more) {blanks : List Blank}
    (some : blanks ≠ []) : (Fragment.trailing (textOf blanks ++ more)).1 ≠ [] := by
  obtain ⟨blank, blanks, rfl⟩ := List.exists_cons_of_ne_nil some
  obtain ⟨fragment, later, found, -⟩ := next?_textOf absent false blank blanks
  rw [Fragment.trailing, Fragment.run_of_some found]
  split <;> exact List.cons_ne_nil _ _

private theorem breaks_textOf {blanks : List Blank} (some : blanks ≠ []) :
    Text.Breaks (textOf blanks ++ more) := by
  obtain ⟨blank, blanks, rfl⟩ := List.exists_cons_of_ne_nil some
  rw [textOf_cons]
  intro c front
  cases blank <;> simp_all [text, eq_comm]

end Blank

/-- What parts two tokens: one blank or more. -/
structure Separator where
  blanks : List Blank
  ne_nil : blanks ≠ []

def Separator.text (separator : Separator) : List Char := Blank.textOf separator.blanks

namespace Lexeme

/-- A text between two `quote`s, in which a quote is doubled. -/
def doubled (quote : Char) (content : List Char) : List Char :=
  content.flatMap fun c => if c = quote then [c, c] else [c]

private theorem Quotation.read_doubled {quote : Char} {content rest : List Char}
    (inLine : content.all (!Fragment.isLineEnd ·) = true) (stops : rest.head? ≠ some quote) :
    read quote (doubled quote content ++ quote :: rest) =
      ⟨doubled quote content ++ [quote], content, true, rest⟩ := by
  induction content with
  | nil =>
    cases rest with
    | nil => simp [doubled, read]
    | cons d rest =>
      have other : d ≠ quote := fun same => stops (congrArg some same)
      simp [doubled, read, other]
  | cons c content ih =>
    simp only [List.all_cons, Bool.and_eq_true, Bool.not_eq_true'] at inLine
    obtain ⟨inside, inLine⟩ := inLine
    by_cases same : c = quote
    · have front : doubled quote (c :: content) = quote :: quote :: doubled quote content := by
        simp [doubled, same]
      rw [front, List.cons_append, List.cons_append, read, if_pos rfl, if_pos rfl, ih inLine, same]
      rfl
    · have front : doubled quote (c :: content) = c :: doubled quote content := by
        simp [doubled, same]
      obtain ⟨d, later, more⟩ := List.exists_cons_of_ne_nil
        (List.append_ne_nil_of_right_ne_nil (doubled quote content) (List.cons_ne_nil quote rest))
      have step : read quote (c :: d :: later) = (read quote (d :: later)).push [c] [c] := by
        simp [read, same, inside]
      rw [front, List.cons_append, more, step, ← more, ih inLine]
      rfl

/-- A lexeme that is read off its own text between two blanks. -/
structure Detached (lexeme : Lexeme) : Prop where
  sound : lexeme.problem = none
  absent : ∀ rest, Text.Breaks rest → Fragment.Absent (lexeme.text ++ rest)
  read : ∀ rest, Text.Breaks rest → Lexeme.read false (lexeme.text ++ rest) = (lexeme, rest)

theorem Plain.detached {lexeme : Lexeme} (plain : lexeme.Plain) : lexeme.Detached where
  sound := plain.sound
  absent := plain.absent
  read := plain.read false

/-- It is not the end of the text, nor a word of a command. -/
theorem Detached.kind_ne {lexeme : Lexeme} (detached : lexeme.Detached) :
    lexeme.kind ≠ .eof ∧ lexeme.kind ≠ .unquotedStringLiteral := by
  have read := detached.read [' '] (by simp [Text.Breaks])
  have notEnd := @read_kind_ne_eof false (lexeme.text ++ [' ']) (by simp)
  have notBare := read_kind_ne_unquoted false (lexeme.text ++ [' '])
  rw [read] at notEnd notBare
  exact ⟨notEnd, notBare⟩

end Lexeme

/-- What a string is quoted with. -/
inductive QuoteMark where
  | single
  | double
  deriving DecidableEq, Repr

namespace QuoteMark

def char : QuoteMark → Char
  | .single => '\''
  | .double => '"'

/-- The kind of the strings between two of the marks. -/
def kind : QuoteMark → Kind
  | .single => .stringLiteral
  | .double => .doubleQuotedStringLiteral

end QuoteMark

def Lexeme.quoted (mark : QuoteMark) (content : List Char) : Lexeme where
  kind := mark.kind
  text := mark.char :: (doubled mark.char content ++ [mark.char])
  value := some (.text content)

/-- Apart from what stands before it a single quote opens a string. -/
theorem Lexeme.quoted_detached (mark : QuoteMark) {content : List Char}
    (inLine : content.all (!Fragment.isLineEnd ·) = true) : (quoted mark content).Detached where
  sound := rfl
  absent rest _ := by cases mark <;> exact fun _ => rfl
  read rest breaks := by
    have stops : rest.head? ≠ some mark.char := by
      intro front
      have blank := breaks _ front
      revert blank
      cases mark <;> decide
    have quotation := Quotation.read_doubled inLine stops
    cases mark <;> simp_all [quoted, Lexeme.read, string, QuoteMark.char, QuoteMark.kind]

/-- A token that can be listed, by what it is written as. -/
inductive Spelling where
  /-- An operator, a separator or a bracket, other than a transpose. -/
  | fixed (kind : Kind) (spelled : kind.fixedText?.isSome = true) (other : kind ≠ .apostrophe)
  /-- A word, reserved or not. -/
  | word (text : List Char) (isWord : Lexeme.isWord text = true)
  | number (literal : Literal)
  | quoted (mark : QuoteMark) (content : List Char)
      (inLine : content.all (!Fragment.isLineEnd ·) = true)

namespace Spelling

def lexeme : Spelling → Lexeme
  | .fixed kind _ _ => .fixed kind
  | .word text _ => .word text
  | .number literal => literal.lexeme
  | .quoted mark content _ => .quoted mark content

def kind (spelling : Spelling) : Kind := spelling.lexeme.kind

def text (spelling : Spelling) : List Char := spelling.lexeme.text

def opening : Spelling := .fixed .openSquareBracket rfl (by decide)

def closing : Spelling := .fixed .closeSquareBracket rfl (by decide)

private theorem detached (spelling : Spelling) : spelling.lexeme.Detached := by
  cases spelling with
  | fixed kind spelled other => exact (Lexeme.fixed_plain spelled other).detached
  | word text isWord => exact (Lexeme.word_plain isWord).detached
  | number literal => exact literal.plain.detached
  | quoted mark content inLine => exact Lexeme.quoted_detached mark inLine

end Spelling

/-- What follows on a token of a list: the tokens after it, each behind its separator, and the
bracket that closes the list. -/
def following (last : Separator) : List (Separator × Spelling) → List Char
  | [] => last.text ++ [']']
  | (separator, spelling) :: items => separator.text ++ (spelling.text ++ following last items)

/-- Tokens that are listed in square brackets, each behind a separator, and the last before one. -/
def listing (items : List (Separator × Spelling)) (last : Separator) : List Char :=
  '[' :: following last items

private theorem breaks_following (last : Separator) (items : List (Separator × Spelling)) :
    Text.Breaks (following last items) := by
  cases items with
  | nil => exact Blank.breaks_textOf last.ne_nil
  | cons item items => exact Blank.breaks_textOf item.1.ne_nil

private theorem trailing_following_ne_nil (last : Separator) (items : List (Separator × Spelling)) :
    (Fragment.trailing (following last items)).1 ≠ [] := by
  cases items with
  | nil =>
    have absent := Spelling.closing.detached.absent [] Text.breaks_nil
    exact Blank.trailing_ne_nil absent last.ne_nil
  | cons item items =>
    have absent := item.2.detached.absent _ (breaks_following last items)
    exact Blank.trailing_ne_nil absent item.1.ne_nil

/-- A token that a lexeme is read as, without problems. -/
structure PlacedToken.IsOf (placed : PlacedToken) (lexeme : Lexeme) : Prop where
  kind : placed.kind = lexeme.kind
  trimmed : placed.token.trimmed? = some lexeme.text
  diagnostics : placed.diagnostics = []

/-- The kinds of the tokens of a text and what they are written as. -/
def TokenStream.spelled (stream : TokenStream) : List (Kind × Option (List Char)) :=
  stream.toList.map fun placed => (placed.kind, placed.token.trimmed?)

private theorem TokenStream.spelled_push (stream : TokenStream) (placed : PlacedToken) :
    (stream.push placed).spelled = (placed.kind, placed.token.trimmed?) :: stream.spelled := rfl

private theorem TokenStream.diagnostics_push (stream : TokenStream) (placed : PlacedToken) :
    (stream.push placed).diagnostics = placed.diagnostics ++ stream.diagnostics := rfl

namespace Lexer

/-- A lexer reads all that is left, without problems, as tokens of some kinds and texts. -/
def Spells (lexer : Lexer) (spelled : List (Kind × Option (List Char))) : Prop :=
  ∃ stream, lexer.tokens = .ok stream ∧ stream.diagnostics = [] ∧ stream.spelled = spelled

private theorem spells_of_done {lexer : Lexer} (done : lexer.rest = [])
    (closed : lexer.context.brackets = []) : lexer.Spells [(.eof, some [])] :=
  ⟨_, tokens_of_done done closed, rfl, rfl⟩

private theorem Spells.cons {lexer : Lexer} {spelled : List (Kind × Option (List Char))}
    (later : lexer.next.2.Spells spelled) {placed : PlacedToken}
    (yields : lexer.next.1 = .ok placed) {lexeme : Lexeme} (isOf : placed.IsOf lexeme)
    (notEnd : lexeme.kind ≠ .eof) : lexer.Spells ((lexeme.kind, some lexeme.text) :: spelled) := by
  obtain ⟨stream, tokens, clean, same⟩ := later
  refine ⟨stream.push placed, ?_, ?_, ?_⟩
  · rw [tokens_of_ok yields, if_neg (by rwa [isOf.kind]), tokens]
    rfl
  · rw [TokenStream.diagnostics_push, isOf.diagnostics, clean]
    rfl
  · rw [TokenStream.spelled_push, isOf.kind, isOf.trimmed, same]

/-- A lexer that stands apart from the token before it, in brackets or in no command. -/
structure Apart (lexer : Lexer) : Prop where
  touches : lexer.context.touchesOperand = false
  calm : lexer.context.command ≠ .words
  enclosed : lexer.context.command = .candidate → lexer.context.brackets ≠ []

private theorem Apart.expectsBareWord {lexer : Lexer} (apart : lexer.Apart)
    (leading : List Fragment)
    (text : List Char) : (lexer.context.afterLeading leading).expectsBareWord text = false := by
  unfold Context.afterLeading
  split
  · rfl
  · unfold Context.expectsBareWord
    cases command : lexer.context.command with
    | none => rfl
    | candidate => simp [apart.enclosed command]
    | words => exact absurd command apart.calm

section

variable {lexer : Lexer} {lexeme : Lexeme} {blanks : List Blank} {tail : List Char}

private theorem Apart.reading (apart : lexer.Apart) (detached : lexeme.Detached)
    (ahead : lexer.rest = Blank.textOf blanks ++ (lexeme.text ++ tail))
    (breaks : Text.Breaks tail) :
    lexer.reading.lexeme = lexeme ∧
      lexer.reading.trailing = (Fragment.trailing tail).1 ∧
      lexer.reading.rest = (Fragment.trailing tail).2 ∧
      ∀ fragment ∈ lexer.reading.leading, fragment.problem = none := by
  have absent := detached.absent tail breaks
  have more : lexeme.text ++ tail ≠ [] := by
    intro nothing
    have none := detached.read tail breaks
    rw [nothing] at none
    exact detached.kind_ne.1 (congrArg (Lexeme.kind ·.1) none).symm
  obtain ⟨later, left, none⟩ := Blank.run_textOf absent false lexer.context.atLineStart blanks
  obtain rfl := none rfl
  have rest : (Fragment.leading lexer.context.atLineStart lexer.rest).2 = lexeme.text ++ tail := by
    rw [ahead]
    exact left
  have clean := (Fragment.run_problems false lexer.context.atLineStart lexer.rest).2
    (by rw [← Fragment.leading, rest]; exact more)
  have touches (leading : List Fragment) :
      (lexer.context.afterLeading leading).touchesOperand = false := by
    unfold Context.afterLeading
    split <;> exact apart.touches
  have significant (leading : List Fragment) :
      (lexer.context.afterLeading leading).readLexeme (lexeme.text ++ tail) = (lexeme, tail) := by
    rw [Context.readLexeme, apart.expectsBareWord, touches]
    exact detached.read tail breaks
  simp only [Lexer.reading, Context.read, rest, significant, true_and]
  exact clean

/-- Its token is that of the lexeme, and the brackets are matched by its kind. -/
theorem Apart.next (apart : lexer.Apart) (detached : lexeme.Detached)
    (ahead : lexer.rest = Blank.textOf blanks ++ (lexeme.text ++ tail))
    (breaks : Text.Breaks tail) {opened : List Kind}
    (opens : lexeme.kind.openAfter? (lexer.context.brackets.map Prod.fst) = some opened) :
    ∃ placed, lexer.next.1 = .ok placed ∧ placed.IsOf lexeme ∧
      lexer.next.2.rest = (Fragment.trailing tail).2 ∧
      lexer.next.2.context.brackets.map Prod.fst = opened ∧
      ((Fragment.trailing tail).1 ≠ [] → opened ≠ [] → lexer.next.2.Apart) := by
  obtain ⟨read, trailing, rest, clean⟩ := apart.reading detached ahead breaks
  obtain ⟨notEnd, notBare⟩ := detached.kind_ne
  have kind : lexer.reading.token.kind = lexeme.kind := congrArg Lexeme.kind read
  obtain ⟨brackets, matched⟩ := Context.exists_matchBracket notEnd opens
    (PlacedToken.range ⟨lexer.reading.token, lexer.position⟩)
  have found : lexer.bracketsAfter = .ok brackets := by
    rw [bracketsAfter, entered_brackets, kind, matched]
  have next := lexer.next_eq
  rw [found] at next
  have calm : { lexer.entered with brackets := brackets }.command ≠ .words := by
    unfold Lexer.entered Context.afterLeading
    split
    · exact CommandMode.noConfusion
    · exact apart.calm
  have kinds : brackets.map Prod.fst = opened :=
    Option.some.inj ((Context.openAfter?_of_matchBracket matched).symm.trans opens)
  rw [next]
  refine ⟨_, rfl, ⟨kind, ?_, ?_⟩, rest, ?_, fun parted some => ⟨?_, ?_, fun _ none => some ?_⟩⟩
  · rw [Reading.token_trimmed?, read]
  · have after := @Fragment.run_trailing_problem true false tail rfl rfl
    rw [PlacedToken.diagnostics, List.map_eq_nil_iff]
    simp only [Reading.token, Reading.diagnostics, Reading.found, read, trailing, detached.sound,
      Fragment.diagnostics_of_clean _ clean, Fragment.trailing,
      Fragment.diagnostics_of_clean _ after]
    rfl
  · rw [Context.brackets_afterToken]
    exact kinds
  · exact Context.touchesOperand_afterToken _ (by rw [trailing]; exact parted)
  · exact Context.command_afterToken_ne calm (by rw [read]; exact notBare)
  · rw [Context.brackets_afterToken] at none
    rw [← kinds]
    exact congrArg (List.map Prod.fst) none

end

private theorem Apart.spells_following {lexer : Lexer} (apart : lexer.Apart)
    {items : List (Separator × Spelling)} {last : Separator} {inner : List Kind}
    (opened : lexer.context.brackets.map Prod.fst = inner ++ [.openSquareBracket])
    (ahead : lexer.rest = (Fragment.trailing (following last items)).2)
    (closed : Kind.CloseAll (items.map (·.2.kind)) inner) :
    lexer.Spells (items.map (fun item => (item.2.kind, some item.2.text)) ++
      [(.closeSquareBracket, some [']']), (.eof, some [])]) := by
  induction items generalizing lexer inner with
  | nil =>
    obtain rfl : inner = [] := Kind.closeAll_nil.mp closed
    have detached := Spelling.closing.detached
    obtain ⟨blanks, left, -⟩ :=
      Blank.run_textOf (detached.absent [] Text.breaks_nil) true false last.blanks
    have closes : Kind.closeSquareBracket.openAfter? (lexer.context.brackets.map Prod.fst) =
        some [] := by
      rw [opened]
      rfl
    obtain ⟨placed, yields, isOf, rest, brackets, -⟩ :=
      apart.next detached (ahead.trans left) Text.breaks_nil closes
    have done : lexer.next.2.rest = [] := by
      rw [rest, Fragment.trailing, Fragment.run_of_none rfl]
    have none : lexer.next.2.context.brackets = [] := List.map_eq_nil_iff.mp brackets
    exact (spells_of_done done none).cons yields isOf detached.kind_ne.1
  | cons item items ih =>
    obtain ⟨separator, spelling⟩ := item
    obtain ⟨after, opens, closed⟩ := Kind.closeAll_cons.mp closed
    have breaks := breaks_following last items
    obtain ⟨blanks, left, -⟩ :=
      Blank.run_textOf (spelling.detached.absent _ breaks) true false separator.blanks
    -- The brackets of the list itself stay open around those that are listed.
    have opensInside := Kind.openAfter?_append opens [.openSquareBracket]
    rw [← opened] at opensInside
    obtain ⟨placed, yields, isOf, rest, brackets, apartAfter⟩ :=
      apart.next spelling.detached (ahead.trans left) breaks opensInside
    have later := ih (apartAfter (trailing_following_ne_nil last items) (by simp)) brackets rest
      closed
    exact later.cons yields isOf spelling.detached.kind_ne.1

end Lexer

/-- Tokens that close their brackets are listed as a text that is cut into them again, without
problems, whatever blanks part them. -/
theorem tokenize_listing (items : List (Separator × Spelling)) (last : Separator)
    (closed : Kind.CloseAll (items.map (·.2.kind)) []) :
    ∃ stream, tokenize (listing items last) = .ok stream ∧ stream.diagnostics = [] ∧
      stream.spelled =
        (.openSquareBracket, some ['[']) ::
          (items.map (fun item => (item.2.kind, some item.2.text)) ++
            [(.closeSquareBracket, some [']']), (.eof, some [])]) := by
  have apart : (Lexer.start (listing items last)).Apart :=
    ⟨rfl, CommandMode.noConfusion, CommandMode.noConfusion⟩
  have detached := Spelling.opening.detached
  have ahead : (Lexer.start (listing items last)).rest =
      Blank.textOf [] ++ (Spelling.opening.text ++ following last items) := rfl
  obtain ⟨placed, yields, isOf, rest, brackets, apartAfter⟩ :=
    apart.next detached ahead (breaks_following last items) rfl
  have later := (apartAfter (trailing_following_ne_nil last items) (by simp)).spells_following
    brackets rest closed
  exact later.cons yields isOf detached.kind_ne.1

/-- Some of everything; the last quote would be a transpose if it touched the bracket before it. -/
theorem tokenize_listing_mixed :
    Kind.CloseAll [.stringLiteral, .numberLiteral, .openParenthesis, .identifier, .dotApostrophe,
        .doubleQuotedStringLiteral, .closeParenthesis, .stringLiteral] [] ∧
      ∃ stream,
        tokenize "[ 'it''s'\r\n\t.5e-3i  ( end\n.' \"1\"\"%\"\t)\n'x'\n]".toList = .ok stream ∧
          stream.diagnostics = [] ∧
          stream.spelled =
            [(.openSquareBracket, some ['[']), (.stringLiteral, some "'it''s'".toList),
              (.numberLiteral, some ".5e-3i".toList), (.openParenthesis, some ['(']),
              (.identifier, some "end".toList), (.dotApostrophe, some ".'".toList),
              (.doubleQuotedStringLiteral, some "\"1\"\"%\"".toList),
              (.closeParenthesis, some [')']), (.stringLiteral, some "'x'".toList),
              (.closeSquareBracket, some [']']), (.eof, some [])] := by
  let items : List (Separator × Spelling) :=
    [(⟨[.space], by decide⟩, .quoted .single "it's".toList (by decide)),
      (⟨[.crlf, .tab], by decide⟩,
        .number ⟨⟨[], some ['5'], some ⟨'e', some '-', ['3']⟩, some 'i'⟩, by decide⟩),
      (⟨[.space, .space], by decide⟩, .fixed .openParenthesis rfl (by decide)),
      (⟨[.space], by decide⟩, .word "end".toList (by decide)),
      (⟨[.lineFeed], by decide⟩, .fixed .dotApostrophe rfl (by decide)),
      (⟨[.space], by decide⟩, .quoted .double "1\"%".toList (by decide)),
      (⟨[.tab], by decide⟩, .fixed .closeParenthesis rfl (by decide)),
      (⟨[.lineFeed], by decide⟩, .quoted .single ['x'] (by decide))]
  exact ⟨rfl, tokenize_listing items ⟨[.lineFeed], by decide⟩ rfl⟩

end MatrixScript
