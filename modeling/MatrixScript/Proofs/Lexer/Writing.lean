import MatrixScript.Proofs.Lexer.Restart
import MatrixScript.Proofs.Lexer.Spelling

/-!
Texts that are written lexeme by lexeme.

A lexeme is written with what stands between it and the next: nothing, a space or a line feed. A
lexer that comes to such a text reads the lexemes one after the other, each with its gap as the only
trivia, and what it knows afterwards is said by `Context.Follows`.
-/

set_option autoImplicit false

namespace MatrixScript

theorem Fragment.Absent.not_isHorizontal {c : Char} {rest : List Char}
    (absent : Fragment.Absent (c :: rest)) : Fragment.isHorizontal c = false := by
  cases blank : Fragment.isHorizontal c with
  | false => rfl
  | true =>
    have none := absent false
    simp only [isHorizontal, Bool.or_eq_true, beq_iff_eq] at blank
    rcases blank with ((rfl | rfl) | rfl) | rfl <;> cases none

/-- Kinds that neither open or close a bracket nor separate statements. -/
def Kind.isInner (kind : Kind) : Bool :=
  kind ∉ [eof, unquotedStringLiteral, semicolon, comma] && !kind.isOpening && !kind.isClosing

/-- What stands between a lexeme and the next. -/
inductive Gap where
  | none
  | space
  | lineFeed
  deriving DecidableEq, Repr

namespace Gap

def fragments : Gap → List Fragment
  | .none => []
  | .space => [⟨.whitespace, [' '], Option.none⟩]
  | .lineFeed => [⟨.newline, ['\n'], Option.none⟩]

def text (gap : Gap) : List Char := Fragment.textOf gap.fragments

@[simp]
theorem text_none : Gap.none.text = [] := rfl

@[simp]
theorem text_space : Gap.space.text = [' '] := rfl

@[simp]
theorem text_lineFeed : Gap.lineFeed.text = ['\n'] := rfl

/-- Whether a gap is all that parts a lexeme from a text. Without a gap only the end of the text or
a semicolon ends a lexeme. -/
def Fits : Gap → List Char → Prop
  | .none, rest => rest = [] ∨ rest.head? = some ';'
  | .space, rest => Fragment.Absent rest
  | .lineFeed, _ => True

theorem fits_lineFeed {rest : List Char} : Gap.lineFeed.Fits rest := trivial

theorem Fits.breaks {gap : Gap} {rest : List Char} (fits : gap.Fits rest) :
    Text.Breaks (gap.text ++ rest) := by
  intro c found
  cases gap with
  | none =>
    rcases fits with rfl | semicolon
    · simp [text, fragments, Fragment.textOf] at found
    · have front : some ';' = some c := semicolon.symm.trans found
      simp only [Option.some.injEq] at front
      exact Or.inr (Or.inr (Or.inr (Or.inr front.symm)))
  | space =>
    obtain rfl : ' ' = c := by simpa [text, fragments, Fragment.textOf] using found
    exact Or.inl rfl
  | lineFeed =>
    obtain rfl : '\n' = c := by simpa [text, fragments, Fragment.textOf] using found
    exact Or.inr (Or.inr (Or.inl rfl))

private theorem Fits.trailing {gap : Gap} {rest : List Char} (fits : gap.Fits rest) :
    Fragment.trailing (gap.text ++ rest) = (gap.fragments, rest) := by
  cases gap with
  | none =>
    apply Fragment.run_of_none
    show Fragment.next? false rest = Option.none
    rcases fits with rfl | semicolon
    · rfl
    · obtain ⟨back, rfl⟩ := List.head?_eq_some_iff.mp semicolon
      rfl
  | space =>
    have blank : Fragment.next? false (' ' :: rest) =
        some (⟨.whitespace, [' '], Option.none⟩, rest) := by
      have stops : rest.takeWhile Fragment.isHorizontal = [] ∧
          rest.dropWhile Fragment.isHorizontal = rest := by
        cases rest with
        | nil => exact ⟨rfl, rfl⟩
        | cons c rest => simp [Fragment.Absent.not_isHorizontal fits]
      simp [Fragment.next?, Fragment.isHorizontal, stops]
    show Fragment.run true false (' ' :: rest) = _
    rw [Fragment.run_of_some blank, Fragment.run_of_none (fits _)]
    rfl
  | lineFeed =>
    show Fragment.run true false ('\n' :: rest) = _
    rw [Fragment.run_of_some rfl]
    rfl

end Gap

/-- A lexeme and the gap after it. -/
structure Written where
  lexeme : Lexeme
  gap : Gap

/-- The end of a text, with no trivia before it. -/
def Token.endOfText : Token := { kind := .eof, text := [] }

namespace Written

def text (written : Written) : List Char := written.lexeme.text ++ written.gap.text

/-- What a lexer reads where the text goes on with `rest`. -/
def reading (written : Written) (rest : List Char) : Reading :=
  ⟨[], written.lexeme, written.gap.fragments, rest⟩

/-- The token of a lexeme, which has its gap as trivia. -/
def token (written : Written) : Token := (written.reading []).token

@[simp]
theorem token_kind (written : Written) : written.token.kind = written.lexeme.kind := rfl

@[simp]
theorem token_endsLine (written : Written) :
    written.token.endsLine = (written.gap == .lineFeed) := by
  obtain ⟨lexeme, gap⟩ := written
  cases gap <;> rfl

@[simp]
theorem reading_lexeme (written : Written) (rest : List Char) :
    (written.reading rest).lexeme = written.lexeme := rfl

@[simp]
theorem reading_trailing (written : Written) (rest : List Char) :
    (written.reading rest).trailing = written.gap.fragments := rfl

@[simp]
theorem reading_endsLine (written : Written) (rest : List Char) :
    (written.reading rest).endsLine = (written.gap == .lineFeed) := written.token_endsLine

theorem token_leadingWidth (written : Written) : written.token.leadingWidth = 0 := rfl

theorem token_width (written : Written) :
    written.token.width - written.token.trailingWidth = Text.byteSize written.lexeme.text := by
  simp only [token, reading, Reading.token, Reading.text, Token.width, Token.trailingWidth,
    Fragment.total_pieces, Text.byteSize_append]
  simp [Fragment.textOf]

@[simp]
theorem token_trimmed? (written : Written) :
    written.token.trimmed? = some written.lexeme.text :=
  (written.reading []).token_trimmed?

@[simp]
theorem token_isWord (written : Written) (word : String) :
    written.token.isWord word =
      (written.lexeme.kind == .identifier && written.lexeme.text == word.toList) := by
  simp only [Token.isWord, token_kind, token_trimmed?]
  rfl

private theorem token_diagnostics {written : Written} (sound : written.lexeme.problem = none) :
    written.token.diagnostics = [] := by
  obtain ⟨lexeme, gap⟩ := written
  cases gap <;> simp_all [token, reading, Reading.token, Reading.diagnostics, Reading.found,
    Gap.fragments, Fragment.diagnostics]

/-- Lexemes with a space between any two, and a gap after the last. -/
def spaced : List Lexeme → Gap → List Written
  | [], _ => []
  | [lexeme], gap => [⟨lexeme, gap⟩]
  | lexeme :: next :: later, gap => ⟨lexeme, .space⟩ :: spaced (next :: later) gap

def textOf (written : List Written) : List Char := written.flatMap text

theorem spaced_append {later : List Lexeme} (some : later ≠ []) (lexemes : List Lexeme)
    (gap : Gap) : spaced (lexemes ++ later) gap = spaced lexemes .space ++ spaced later gap := by
  induction lexemes with
  | nil => rfl
  | cons lexeme lexemes ih =>
    cases lexemes with
    | nil =>
      obtain ⟨next, rest, rfl⟩ := List.exists_cons_of_ne_nil some
      rfl
    | cons next rest =>
      show ⟨lexeme, .space⟩ :: spaced (next :: rest ++ later) gap = _
      rw [ih]
      rfl

theorem lexeme_mem_of_spaced {lexemes : List Lexeme} {gap : Gap} {written : Written}
    (member : written ∈ spaced lexemes gap) : written.lexeme ∈ lexemes := by
  fun_induction spaced lexemes gap with
  | case1 => simp at member
  | case2 => simp_all
  | case3 gap lexeme next later ih =>
    rw [List.mem_cons] at member
    rcases member with rfl | member
    · exact List.mem_cons_self
    · exact List.mem_cons_of_mem _ (ih member)

theorem spaced_ends {lexemes : List Lexeme} (some : lexemes ≠ []) (gap : Gap) :
    ∃ front lexeme, spaced lexemes gap = front ++ [⟨lexeme, gap⟩] := by
  have split := List.dropLast_concat_getLast some
  rw [← split, spaced_append (by simp)]
  exact ⟨_, _, rfl⟩

theorem absent_spaced {lexemes : List Lexeme} (some : lexemes ≠ [])
    (plain : ∀ lexeme ∈ lexemes, lexeme.Plain) {gap : Gap} {rest : List Char}
    (fits : gap.Fits rest) : Fragment.Absent (textOf (spaced lexemes gap) ++ rest) := by
  obtain ⟨lexeme, later, rfl⟩ := List.exists_cons_of_ne_nil some
  have first := plain lexeme List.mem_cons_self
  cases later with
  | nil =>
    have whole : textOf (spaced [lexeme] gap) ++ rest = lexeme.text ++ (gap.text ++ rest) := by
      simp [spaced, textOf, text]
    rw [whole]
    exact first.absent _ fits.breaks
  | cons next later =>
    have whole : textOf (spaced (lexeme :: next :: later) gap) ++ rest =
        lexeme.text ++ (' ' :: (textOf (spaced (next :: later) gap) ++ rest)) := by
      simp [spaced, textOf, text, Gap.text, Gap.fragments, Fragment.textOf]
    have breaks : Text.Breaks (' ' :: (textOf (spaced (next :: later) gap) ++ rest)) := by
      intro c found
      exact Or.inl (by simpa using found.symm)
    rw [whole]
    exact first.absent _ breaks

theorem textOf_spaced (lexemes : List Lexeme) :
    textOf (spaced lexemes .none) = [' '].intercalate (lexemes.map Lexeme.text) := by
  induction lexemes with
  | nil => rfl
  | cons lexeme lexemes ih =>
    cases lexemes with
    | nil => simp [spaced, textOf, text, Gap.text, Gap.fragments, Fragment.textOf]
    | cons next rest =>
      rw [spaced, textOf, List.flatMap_cons, ← textOf, ih]
      simp [text, Gap.text, Gap.fragments, Fragment.textOf, List.intercalate]

end Written

namespace Context

/-- What is known after lexemes that are written one after the other, the last with a gap. -/
def Follows (before : Context) (gap : Gap) (after : Context) : Prop :=
  if gap = .lineFeed then after = { brackets := before.brackets }
  else after.brackets = before.brackets ∧ after.atStatementStart = false ∧
    after.command ≠ .words ∧ (before.atStatementStart = false → after.command = .none)

theorem Follows.fresh {before after : Context} (follows : before.Follows .lineFeed after) :
    after = { brackets := before.brackets } := follows

theorem Follows.within {before after : Context} {gap : Gap} (follows : before.Follows gap after)
    (sameLine : gap ≠ .lineFeed) :
    after.brackets = before.brackets ∧ after.atStatementStart = false ∧
      after.command ≠ .words ∧ (before.atStatementStart = false → after.command = .none) := by
  rw [Follows, if_neg sameLine] at follows
  exact follows

theorem Follows.trans {before middle after : Context} {inner gap : Gap}
    (first : before.Follows inner middle) (sameLine : inner ≠ .lineFeed)
    (second : middle.Follows gap after) : before.Follows gap after := by
  obtain ⟨brackets, inside, -, -⟩ := first.within sameLine
  by_cases ended : gap = .lineFeed
  · subst ended
    rw [Follows, if_pos rfl, second.fresh, brackets]
  · obtain ⟨sameBrackets, still, calm, none⟩ := second.within ended
    rw [Follows, if_neg ended]
    exact ⟨sameBrackets.trans brackets, still, calm, fun _ => none inside⟩

theorem Follows.close {before after : Context} {inner : List (Kind × Range)}
    (follows : Follows { before with brackets := inner } .space after) :
    before.Follows .space { after with brackets := before.brackets } := by
  obtain ⟨-, inside, calm, none⟩ := follows.within (by decide)
  rw [Follows, if_neg (by decide)]
  exact ⟨rfl, inside, calm, none⟩

theorem expectsBareWord_of_none {context : Context} (none : context.command = .none)
    (text : List Char) : context.expectsBareWord text = false := by
  rw [expectsBareWord, none]

theorem expectsBareWord_of_startsBareWord {context : Context} (calm : context.command ≠ .words)
    {text : List Char} (starts : Lexeme.startsBareWord text = false) :
    context.expectsBareWord text = false := by
  unfold expectsBareWord
  cases command : context.command with
  | none => rfl
  | candidate => simp [starts]
  | words => exact absurd command calm

private theorem commandAfter_of_calm {context : Context} (calm : context.command ≠ .words)
    {reading : Reading} (bare : reading.lexeme.kind ≠ .unquotedStringLiteral) :
    context.commandAfter reading =
      if context.atStatementStart && reading.isSpacedName then .candidate else .none := by
  simp only [commandAfter, bare, calm, beq_iff_eq, Bool.or_eq_true, or_self, if_false]

theorem command_afterToken_ne {context : Context} (calm : context.command ≠ .words)
    {reading : Reading} (bare : reading.lexeme.kind ≠ .unquotedStringLiteral) :
    (context.afterToken reading).command ≠ .words := by
  simp only [afterToken, endStatement, commandAfter_of_calm calm bare]
  split
  · exact CommandMode.noConfusion
  · dsimp only
    split <;> exact CommandMode.noConfusion

theorem touchesOperand_afterToken (context : Context) {reading : Reading}
    (parted : reading.trailing ≠ []) : (context.afterToken reading).touchesOperand = false := by
  have notEmpty : reading.trailing.isEmpty = false := by simpa using parted
  simp only [afterToken, endStatement, notEmpty, Bool.and_false]
  split <;> rfl

section

variable {context : Context} {written : Written}

private theorem follows_afterToken (calm : context.command ≠ .words)
    (bare : written.lexeme.kind ≠ .unquotedStringLiteral)
    (joins : written.gap ≠ .lineFeed →
      written.lexeme.kind ≠ .semicolon ∧ written.lexeme.kind ≠ .comma)
    (rest : List Char) :
    context.Follows written.gap (context.afterToken (written.reading rest)) := by
  by_cases ended : written.gap = .lineFeed
  · simp [Follows, afterToken, ended, endStatement, Gap.fragments]
  · have one := joins ended
    have notLine : (written.gap == .lineFeed) = false := by simpa using ended
    have command := @commandAfter_of_calm context calm (written.reading rest) bare
    rw [Follows, if_neg ended, afterToken, command]
    simp only [Written.reading_lexeme, Written.reading_endsLine, notLine, one, beq_iff_eq, or_self,
      Bool.false_eq_true, Bool.or_eq_true, Bool.and_eq_true, false_and, if_false, ne_eq]
    refine ⟨trivial, trivial, ?_, ?_⟩
    · split <;> simp
    · intro inside
      simp [inside]

private theorem afterToken_command (calm : context.command ≠ .words)
    (bare : written.lexeme.kind ≠ .unquotedStringLiteral)
    (unnamed : written.lexeme.kind ≠ .identifier ∨ Word.isReserved written.lexeme.text = true)
    (rest : List Char) : (context.afterToken (written.reading rest)).command = .none := by
  have unspaced : (written.reading rest).isSpacedName = false := by
    rcases unnamed with other | reserved
    · simp [Reading.isSpacedName, other]
    · simp [Reading.isSpacedName, reserved]
  have command := @commandAfter_of_calm context calm (written.reading rest) bare
  rw [afterToken, command, unspaced]
  simp only [Bool.and_false]
  split <;> rfl

end

end Context

namespace Lexer

def Passes (lexer : Lexer) (tokens : List Token) (later : Lexer) : Prop :=
  ∃ placed : List PlacedToken, placed.map (·.token) = tokens ∧
    lexer.tokens = later.tokens.map (·.prepend placed)

theorem Passes.refl (lexer : Lexer) : lexer.Passes [] lexer := by
  refine ⟨[], rfl, ?_⟩
  cases lexer.tokens with
  | error failure => rfl
  | ok stream => rfl

theorem Passes.trans {lexer middle later : Lexer} {first second : List Token}
    (passes : lexer.Passes first middle) (more : middle.Passes second later) :
    lexer.Passes (first ++ second) later := by
  obtain ⟨front, fronts, tokens⟩ := passes
  obtain ⟨back, backs, moreTokens⟩ := more
  refine ⟨front ++ back, by simp [fronts, backs], ?_⟩
  rw [tokens, moreTokens]
  cases later.tokens with
  | error failure => rfl
  | ok stream => simp [Except.map, TokenStream.prepend]

theorem Passes.one {lexer : Lexer} {placed : PlacedToken} (yields : lexer.next.1 = .ok placed)
    (notEnd : placed.kind ≠ .eof) : lexer.Passes [placed.token] lexer.next.2 := by
  refine ⟨[placed], rfl, ?_⟩
  rw [tokens_of_ok yields, if_neg notEnd]
  rfl

def Reads (lexer : Lexer) (written : List Written) (later : Lexer) : Prop :=
  ∃ placed : List PlacedToken, placed.map (·.token) = written.map Written.token ∧
    lexer.tokens = later.tokens.map (·.prepend placed)

private theorem Reads.passes {lexer later : Lexer} {written : List Written}
    (reads : lexer.Reads written later) : lexer.Passes (written.map Written.token) later := reads

theorem Reads.refl (lexer : Lexer) : lexer.Reads [] lexer := Passes.refl lexer

theorem Reads.trans {lexer middle later : Lexer} {first second : List Written}
    (reads : lexer.Reads first middle) (more : middle.Reads second later) :
    lexer.Reads (first ++ second) later := by
  have whole := reads.passes.trans more.passes
  rwa [← List.map_append] at whole

section

variable {lexer : Lexer} {written : Written} {rest : List Char}

private theorem reading_of_plain (plain : written.lexeme.Plain)
    (ahead : lexer.rest = written.text ++ rest)
    (fits : written.gap.Fits rest) (expects : lexer.context.expectsBareWord lexer.rest = false) :
    lexer.reading = written.reading rest ∧ lexer.context.afterLeading [] = lexer.context := by
  have entered : lexer.context.afterLeading [] = lexer.context := by
    simp [Context.afterLeading]
  have whole : lexer.rest = written.lexeme.text ++ (written.gap.text ++ rest) := by
    rw [ahead, Written.text, List.append_assoc]
  -- Gaps stand behind lexemes, so none is in front of this one.
  have leading : Fragment.leading lexer.context.atLineStart lexer.rest = ([], lexer.rest) := by
    apply Fragment.run_of_none
    rw [whole]
    exact plain.absent _ fits.breaks _
  have significant : lexer.context.readLexeme lexer.rest =
      (written.lexeme, written.gap.text ++ rest) := by
    rw [Context.readLexeme, expects, whole]
    exact plain.read _ _ fits.breaks
  refine ⟨?_, entered⟩
  simp only [reading, Context.read, leading, entered, significant, fits.trailing, Written.reading]

theorem reads_lexeme (plain : written.lexeme.Plain) (ahead : lexer.rest = written.text ++ rest)
    (fits : written.gap.Fits rest) (calm : lexer.context.command ≠ .words)
    (expects : lexer.context.expectsBareWord lexer.rest = false)
    (ordinary : written.lexeme.kind ∉ [.eof, .unquotedStringLiteral])
    (joins : written.gap ≠ .lineFeed →
      written.lexeme.kind ≠ .semicolon ∧ written.lexeme.kind ≠ .comma)
    {brackets : List (Kind × Range)}
    (matched : Context.matchBracket lexer.context.brackets written.lexeme.kind
      (PlacedToken.range ⟨written.token, lexer.position⟩) = .ok brackets) :
    ∃ later : Lexer, lexer.Reads [written] later ∧ later.rest = rest ∧
      Context.Follows { lexer.context with brackets := brackets } written.gap later.context ∧
      (written.lexeme.kind ≠ .identifier ∨ Word.isReserved written.lexeme.text = true →
        later.context.command = .none) := by
  simp only [List.mem_cons, List.not_mem_nil, or_false, not_or] at ordinary
  obtain ⟨notEnd, bare⟩ := ordinary
  have still : { lexer.context with brackets := brackets }.command ≠ .words := calm
  obtain ⟨reading, entered⟩ := reading_of_plain plain ahead fits expects
  have next : lexer.next = (.ok ⟨written.token, lexer.position⟩,
      ⟨rest, lexer.position.advance written.text,
        { lexer.context with brackets := brackets }.afterToken (written.reading rest)⟩) := by
    have read : lexer.context.read lexer.rest = written.reading rest := reading
    have leading : (written.reading rest).leading = [] := rfl
    have token : (written.reading rest).token = written.token := rfl
    have kind : (PlacedToken.mk written.token lexer.position).kind = written.lexeme.kind := rfl
    simp only [Lexer.next, read, leading, entered, token, kind, matched]
    rfl
  refine ⟨lexer.next.2, Passes.one (congrArg Prod.fst next) notEnd, ?_, ?_, ?_⟩
  · rw [next]
  · rw [next]
    exact Context.follows_afterToken still bare joins rest
  · intro unnamed
    rw [next]
    exact Context.afterToken_command still bare unnamed rest

theorem reads_inner (plain : written.lexeme.Plain) (ahead : lexer.rest = written.text ++ rest)
    (fits : written.gap.Fits rest) (calm : lexer.context.command ≠ .words)
    (expects : lexer.context.expectsBareWord lexer.rest = false)
    (inner : written.lexeme.kind.isInner = true) :
    ∃ later : Lexer, lexer.Reads [written] later ∧ later.rest = rest ∧
      lexer.context.Follows written.gap later.context ∧
      (written.lexeme.kind ≠ .identifier ∨ Word.isReserved written.lexeme.text = true →
        later.context.command = .none) := by
  simp only [Kind.isInner, Bool.and_eq_true, Bool.not_eq_true', decide_eq_true_eq, List.mem_cons,
    List.not_mem_nil, or_false, not_or] at inner
  obtain ⟨⟨⟨notEnd, bare, semicolon, comma⟩, unopened⟩, unclosed⟩ := inner
  have matched : Context.matchBracket lexer.context.brackets written.lexeme.kind
      (PlacedToken.range ⟨written.token, lexer.position⟩) = .ok lexer.context.brackets := by
    simp [Context.matchBracket, unopened, unclosed, notEnd]
  exact reads_lexeme plain ahead fits calm expects (by simp [notEnd, bare])
    (fun _ => ⟨semicolon, comma⟩) matched

end

theorem tokens_of_done {lexer : Lexer} (done : lexer.rest = [])
    (closed : lexer.context.brackets = []) :
    lexer.tokens = .ok ⟨[], ⟨Token.endOfText, lexer.position⟩⟩ := by
  have next : lexer.next.1 = .ok ⟨Token.endOfText, lexer.position⟩ := by
    have entered : lexer.context.afterLeading [] = lexer.context := by
      simp [Context.afterLeading]
    have kind : (PlacedToken.mk Token.endOfText lexer.position).kind = .eof := rfl
    have token : Reading.token ⟨[], ⟨.eof, [], none, none⟩, [], []⟩ = Token.endOfText := rfl
    simp [Lexer.next, done, entered, token, kind, Context.matchBracket, closed, Kind.isOpening,
      Kind.isClosing]
  rw [tokens_of_ok next]
  rfl

/-- A text whose tokens are passed has those tokens, and no problems if they have none. -/
theorem Passes.tokenize {text : List Char} {tokens : List Token} {later : Lexer}
    (passes : (start text).Passes tokens later) (done : later.rest = [])
    (closed : later.context.brackets = [])
    (silent : ∀ token ∈ tokens, token.diagnostics = []) :
    ∃ stream, tokenize text = .ok stream ∧ stream.tokens.map (·.token) = tokens ∧
      stream.eof.token = Token.endOfText ∧ stream.diagnostics = [] := by
  obtain ⟨placed, rfl, yields⟩ := passes
  rw [tokens_of_done done closed] at yields
  have clean : ∀ one ∈ placed, one.diagnostics = [] := by
    intro one member
    rw [PlacedToken.diagnostics, silent one.token (List.mem_map_of_mem member)]
    rfl
  refine ⟨_, yields, ?_, rfl, ?_⟩
  · simp [TokenStream.prepend]
  · rw [TokenStream.diagnostics_prepend, List.flatMap_eq_nil_iff.mpr clean]
    rfl

/-- A text that is read as it is written has the tokens of what is written and no problems. -/
theorem Reads.tokenize {text : List Char} {written : List Written} {later : Lexer}
    (reads : (start text).Reads written later) (done : later.rest = [])
    (closed : later.context.brackets = []) (plain : ∀ one ∈ written, one.lexeme.Plain) :
    ∃ stream, tokenize text = .ok stream ∧
      stream.tokens.map (·.token) = written.map Written.token ∧
      stream.eof.token = Token.endOfText ∧ stream.diagnostics = [] := by
  apply reads.passes.tokenize done closed
  intro token member
  obtain ⟨one, found, rfl⟩ := List.mem_map.mp member
  exact Written.token_diagnostics (plain one found).sound

end Lexer
end MatrixScript
