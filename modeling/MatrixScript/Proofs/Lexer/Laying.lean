import MatrixScript.Proofs.Lexer.Brackets
import MatrixScript.Proofs.Lexer.Writing

/-!
Lexemes laid out in a text, with white space or a line feed between them or none.

A lexeme `Stands` before a text where it is read off its own text and no more is taken. What
follows on it is its trail. A lexer that comes to lexemes that stand, in brackets that match, reads
them one after the other, each with its trail as the only trivia.
-/

set_option autoImplicit false

namespace MatrixScript

/-- A stretch of spaces and tabs. -/
structure Spaces where
  text : List Char
  known : ∀ c ∈ text, c = ' ' ∨ c = '\t'
  ne_nil : text ≠ []

def Spaces.one : Spaces := ⟨[' '], by simp, by simp⟩

/-- What follows on a lexeme before the next. -/
inductive Trail where
  | none
  | spaces (stretch : Spaces)
  | lineFeed

namespace Trail

def fragments : Trail → List Fragment
  | .none => []
  | .spaces stretch => [⟨.whitespace, stretch.text, Option.none⟩]
  | .lineFeed => [⟨.newline, ['\n'], Option.none⟩]

def text : Trail → List Char
  | .none => []
  | .spaces stretch => stretch.text
  | .lineFeed => ['\n']

def endsLine : Trail → Bool
  | .lineFeed => true
  | _ => false

def isNone : Trail → Bool
  | .none => true
  | _ => false

private theorem textOf_fragments (trail : Trail) :
    Fragment.textOf trail.fragments = trail.text := by
  cases trail <;> simp [fragments, text, Fragment.textOf]

def Fits : Trail → List Char → Prop
  | .lineFeed, _ => True
  | _, rest => Fragment.Absent rest

theorem Fits.of_absent {trail : Trail} {rest : List Char} (absent : Fragment.Absent rest) :
    trail.Fits rest := by
  cases trail with
  | none => exact absent
  | spaces stretch => exact absent
  | lineFeed => exact trivial

private theorem isHorizontal_of_mem {stretch : Spaces} {c : Char} (member : c ∈ stretch.text) :
    Fragment.isHorizontal c = true := by
  rcases stretch.known c member with rfl | rfl <;> rfl

private theorem next?_spaces (stretch : Spaces) {rest : List Char} (absent : Fragment.Absent rest) :
    Fragment.next? false (stretch.text ++ rest) =
      some (⟨.whitespace, stretch.text, Option.none⟩, rest) := by
  have stops : ∀ c ∈ rest.head?, Fragment.isHorizontal c = false := by
    intro c found
    obtain ⟨back, rfl⟩ := List.head?_eq_some_iff.mp found
    exact absent.not_isHorizontal
  have all : stretch.text.all Fragment.isHorizontal = true :=
    List.all_eq_true.mpr fun c => isHorizontal_of_mem
  have span := Text.span_append all stops
  obtain ⟨c, front, whole⟩ := List.exists_cons_of_ne_nil stretch.ne_nil
  have first : c ∈ stretch.text := by simp [whole]
  have blank := stretch.known c first
  have horizontal := isHorizontal_of_mem first
  rw [whole, List.cons_append] at span ⊢
  simp only [List.takeWhile_cons, List.dropWhile_cons, horizontal, if_true, List.cons.injEq,
    true_and] at span
  rcases blank with rfl | rfl
  · simp [Fragment.next?, horizontal, span]
  · simp [Fragment.next?, horizontal, span]

private theorem Fits.trailing {trail : Trail} {rest : List Char} (fits : trail.Fits rest) :
    Fragment.trailing (trail.text ++ rest) = (trail.fragments, rest) := by
  cases trail with
  | none => exact Fragment.run_of_none (fits _)
  | spaces stretch =>
    show Fragment.run true false (stretch.text ++ rest) = _
    rw [Fragment.run_of_some (next?_spaces stretch fits), Fragment.run_of_none (fits _)]
    rfl
  | lineFeed =>
    show Fragment.run true false ('\n' :: rest) = _
    rw [Fragment.run_of_some rfl]
    rfl

theorem ends {trail : Trail} {rest : List Char} (ends : trail = .none → Text.Ends rest) :
    Text.Ends (trail.text ++ rest) := by
  cases trail with
  | none => exact ends rfl
  | spaces stretch =>
    refine Text.Ends.append (fun c front => ?_) stretch.ne_nil rest
    rcases stretch.known c (List.mem_of_mem_head? front) with rfl | rfl
    · decide
    · decide
  | lineFeed =>
    intro c front
    obtain rfl : '\n' = c := by simpa [text] using front
    decide

end Trail

namespace Lexeme

/-- A lexeme is read off its own text before another. -/
structure Stands (lexeme : Lexeme) (rest : List Char) : Prop where
  sound : lexeme.problem = none
  absent : Fragment.Absent (lexeme.text ++ rest)
  read : ∀ touchesOperand, Lexeme.read touchesOperand (lexeme.text ++ rest) = (lexeme, rest)

theorem Solid.stands {lexeme : Lexeme} (solid : lexeme.Solid) {rest : List Char}
    (ends : Text.Ends rest) : lexeme.Stands rest :=
  ⟨solid.sound, solid.absent rest ends, fun touches => solid.read touches rest ends⟩

def solitary : List Kind :=
  [.plus, .minus, .comma, .semicolon, .openParenthesis, .closeParenthesis, .openSquareBracket,
    .closeSquareBracket, .openBrace, .closeBrace]

theorem fixed_stands {kind : Kind} (alone : kind ∈ solitary) (rest : List Char) :
    (fixed kind).Stands rest := by
  have symbols : ∀ kind ∈ solitary, ((fixed kind).text.all fun c => decide (
      (fixed kind).text = [c] ∧ symbol c = fixed kind ∧ c.isAlpha = false ∧ c.isDigit = false ∧
        c ∉ ['.', '\'', '"', '\r', '\n', '%'] ∧ c ∉ ['=', '~', '<', '>', '&', '|'] ∧
        Fragment.isHorizontal c = false)) = true := by
    decide
  have visible : ∀ kind ∈ solitary, (fixed kind).text ≠ [] := by decide
  obtain ⟨c, back, text⟩ := List.exists_cons_of_ne_nil (visible kind alone)
  have known := List.all_eq_true.mp (symbols kind alone) c (by simp [text])
  obtain ⟨single, same, notAlpha, notDigit, other, alone, notBlank⟩ := of_decide_eq_true known
  simp only [List.mem_cons, List.not_mem_nil, or_false, not_or] at other
  obtain ⟨point, quote, mark, carriage, feed, percent⟩ := other
  constructor
  case sound => rfl
  case absent =>
    intro atLineStart
    rw [single, List.singleton_append]
    unfold Fragment.next?
    split <;> simp_all
  case read =>
    intro touchesOperand
    have operator : operator c rest = (fixed kind, rest) := by
      cases rest with
      | nil => rw [Lexeme.operator, same]
      | cons d rest =>
        have none : pairOperator? c d = none := by
          rw [Option.eq_none_iff_forall_ne_some]
          intro kind found
          rcases List.mem_cons.mp (mem_of_pairOperator? found).1 with first | first
          · exact point first
          · exact alone first
        simp [Lexeme.operator, none, same]
    rw [single, List.singleton_append, Lexeme.read]
    simp [notAlpha, notDigit, point, quote, mark, operator]

theorem fixed_ends {kind : Kind} (alone : kind ∈ solitary) (rest : List Char) :
    Text.Ends ((fixed kind).text ++ rest) := by
  have known : ∀ kind ∈ solitary, (fixed kind).text ≠ [] ∧ ((fixed kind).text.head?.all fun c =>
      decide (Text.isNumeric c = false ∧ isWordChar c = false)) = true := by decide
  obtain ⟨visible, ends⟩ := known kind alone
  refine Text.Ends.append (fun c front => ?_) visible rest
  rw [Option.mem_def.mp front] at ends
  exact of_decide_eq_true ends

private theorem Stands.kind_ne {lexeme : Lexeme} {rest : List Char} (stands : lexeme.Stands rest)
    (visible : lexeme.text ≠ []) :
    lexeme.kind ≠ .eof ∧ lexeme.kind ≠ .unquotedStringLiteral := by
  have read := stands.read false
  have notEnd := @read_kind_ne_eof false (lexeme.text ++ rest) (by simp [visible])
  have notBare := read_kind_ne_unquoted false (lexeme.text ++ rest)
  rw [read] at notEnd notBare
  exact ⟨notEnd, notBare⟩

end Lexeme

/-- A lexeme and its trail. -/
structure Laid where
  lexeme : Lexeme
  trail : Trail

namespace Laid

def text (laid : Laid) : List Char := laid.lexeme.text ++ laid.trail.text

def textOf (row : List Laid) : List Char := row.flatMap text

@[simp]
theorem textOf_nil : textOf [] = [] := rfl

@[simp]
theorem textOf_cons (laid : Laid) (row : List Laid) :
    textOf (laid :: row) = laid.lexeme.text ++ (laid.trail.text ++ textOf row) := by
  simp [textOf, text]

@[simp]
theorem textOf_append (front back : List Laid) :
    textOf (front ++ back) = textOf front ++ textOf back := List.flatMap_append

/-- What a lexer reads where the text goes on with `rest`. -/
def reading (laid : Laid) (rest : List Char) : Reading :=
  ⟨[], laid.lexeme, laid.trail.fragments, rest⟩

/-- The token of a lexeme, which has its trail as trivia. -/
def token (laid : Laid) : Token := (laid.reading []).token

def tokensOf (row : List Laid) : List Token := row.map token

@[simp]
theorem tokensOf_append (front back : List Laid) :
    tokensOf (front ++ back) = tokensOf front ++ tokensOf back := List.map_append

@[simp]
theorem token_kind (laid : Laid) : laid.token.kind = laid.lexeme.kind := rfl

@[simp]
theorem token_endsLine (laid : Laid) : laid.token.endsLine = laid.trail.endsLine := by
  obtain ⟨lexeme, trail⟩ := laid
  cases trail <;> rfl

@[simp]
theorem token_trailing_isEmpty (laid : Laid) : laid.token.trailing.isEmpty = laid.trail.isNone := by
  obtain ⟨lexeme, trail⟩ := laid
  cases trail <;> rfl

/-- Lexemes that stand before a text, each with a trail that fits. -/
def Stand : List Laid → List Char → Prop
  | [], _ => True
  | laid :: row, rest =>
    laid.lexeme.Stands (laid.trail.text ++ (textOf row ++ rest)) ∧
      laid.lexeme.text ≠ [] ∧ laid.trail.Fits (textOf row ++ rest) ∧ Stand row rest

theorem stand_append {front back : List Laid} {rest : List Char} :
    Stand (front ++ back) rest ↔ Stand front (textOf back ++ rest) ∧ Stand back rest := by
  induction front with
  | nil => simp [Stand]
  | cons laid front ih => simp [Stand, ih, and_assoc]

theorem Stand.absent {row : List Laid} {rest : List Char} (stand : Stand row rest)
    (some : row ≠ []) : Fragment.Absent (textOf row ++ rest) := by
  obtain ⟨laid, row, rfl⟩ := List.exists_cons_of_ne_nil some
  simpa using stand.1.absent

private theorem Stand.silent {row : List Laid} {rest : List Char} (stand : Stand row rest) :
    ∀ token ∈ tokensOf row, token.diagnostics = [] := by
  induction row with
  | nil => simp [tokensOf]
  | cons laid row ih =>
    have own : laid.token.diagnostics = [] := by
      obtain ⟨lexeme, trail⟩ := laid
      have sound : lexeme.problem = none := stand.1.sound
      cases trail <;> simp [token, reading, Reading.token, Reading.diagnostics, Reading.found,
        sound, Trail.fragments, Fragment.diagnostics]
    simp only [tokensOf, List.map_cons, List.forall_mem_cons]
    exact ⟨own, ih stand.2.2.2⟩

theorem Stand.visible {row : List Laid} {rest : List Char} (stand : Stand row rest) :
    ∀ laid ∈ row, laid.lexeme.text ≠ [] := by
  induction row with
  | nil => simp
  | cons laid row ih =>
    rw [List.forall_mem_cons]
    exact ⟨stand.2.1, ih stand.2.2.2⟩

theorem text_token (laid : Laid) : laid.token.text = laid.text := by
  simp [token, reading, Reading.token, Reading.text, text, ← Trail.textOf_fragments,
    Fragment.textOf]

theorem trailingWidth_token (laid : Laid) :
    laid.token.trailingWidth = Text.byteSize laid.trail.text := by
  simp [token, reading, Reading.token, Token.trailingWidth, Fragment.total_pieces,
    Trail.textOf_fragments]

theorem width_token_ne_zero {laid : Laid} (visible : laid.lexeme.text ≠ []) :
    (laid.token.width != 0) = true := by
  obtain ⟨c, back, text⟩ := List.exists_cons_of_ne_nil visible
  have positive := c.utf8Size_pos
  rw [Token.width, text_token, Laid.text, text, bne_iff_ne]
  simp only [List.cons_append, Text.byteSize_cons]
  omega

private theorem token_trimmed? (laid : Laid) : laid.token.trimmed? = some laid.lexeme.text :=
  (laid.reading []).token_trimmed?

theorem token_isWord (laid : Laid) (word : String) :
    laid.token.isWord word =
      (laid.lexeme.kind == .identifier && laid.lexeme.text == word.toList) := by
  rw [Token.isWord, token_trimmed?]
  rfl

end Laid

private theorem Context.trailing_ne_nil_of_candidate {context : Context} {reading : Reading}
    (candidate : (context.afterToken reading).command = .candidate) : reading.trailing ≠ [] := by
  have after : context.commandAfter reading = .candidate := by
    simp only [afterToken] at candidate
    split at candidate
    · cases candidate
    · exact candidate
  simp only [commandAfter] at after
  split at after
  · cases after
  · split at after
    · rename_i spaced
      simp only [Reading.isSpacedName, Bool.and_eq_true, Bool.not_eq_true',
        List.isEmpty_eq_false_iff] at spaced
      exact spaced.2.1.2
    · cases after

namespace Lexer

/-- A lexer that takes no word of a command: it is in no command, or in brackets. -/
structure Calm (lexer : Lexer) : Prop where
  calm : lexer.context.command ≠ .words
  enclosed : lexer.context.command = .candidate → lexer.context.brackets ≠ []

private theorem Calm.start (text : List Char) : (Lexer.start text).Calm :=
  ⟨CommandMode.noConfusion, CommandMode.noConfusion⟩

private theorem Calm.expectsBareWord {lexer : Lexer} (calm : lexer.Calm) (text : List Char) :
    lexer.context.expectsBareWord text = false := by
  unfold Context.expectsBareWord
  cases command : lexer.context.command with
  | none => rfl
  | candidate => simp [calm.enclosed command]
  | words => exact absurd command calm.calm

section

variable {lexer : Lexer} {laid : Laid} {row : List Laid} {rest : List Char}

private theorem Calm.reading (calm : lexer.Calm)
    (stands : laid.lexeme.Stands (laid.trail.text ++ rest))
    (fits : laid.trail.Fits rest) (ahead : lexer.rest = laid.text ++ rest) :
    lexer.context.read lexer.rest = laid.reading rest := by
  have whole : lexer.rest = laid.lexeme.text ++ (laid.trail.text ++ rest) := by
    rw [ahead, Laid.text, List.append_assoc]
  have leading : Fragment.leading lexer.context.atLineStart lexer.rest = ([], lexer.rest) := by
    apply Fragment.run_of_none
    rw [whole]
    exact stands.absent _
  have entered : lexer.context.afterLeading [] = lexer.context := by
    simp [Context.afterLeading]
  have significant : lexer.context.readLexeme lexer.rest =
      (laid.lexeme, laid.trail.text ++ rest) := by
    rw [Context.readLexeme, calm.expectsBareWord, whole]
    exact stands.read _
  simp only [Context.read, leading, entered, significant, fits.trailing, Laid.reading]

private theorem Calm.passes (calm : lexer.Calm)
    (stands : laid.lexeme.Stands (laid.trail.text ++ rest))
    (visible : laid.lexeme.text ≠ []) (fits : laid.trail.Fits rest)
    (ahead : lexer.rest = laid.text ++ rest) {opened : List Kind}
    (opens : laid.lexeme.kind.openAfter? (lexer.context.brackets.map Prod.fst) = some opened) :
    ∃ later : Lexer, lexer.Passes [laid.token] later ∧ later.rest = rest ∧
      later.context.brackets.map Prod.fst = opened ∧
      (laid.trail.text = [] ∨ opened ≠ [] → later.Calm) := by
  obtain ⟨notEnd, notBare⟩ := stands.kind_ne visible
  obtain ⟨brackets, matched⟩ := Context.exists_matchBracket notEnd opens
    (PlacedToken.range ⟨laid.token, lexer.position⟩)
  have next : lexer.next = (.ok ⟨laid.token, lexer.position⟩,
      ⟨rest, lexer.position.advance (laid.reading rest).text,
        { lexer.context with brackets := brackets }.afterToken (laid.reading rest)⟩) := by
    have entered : lexer.context.afterLeading [] = lexer.context := by
      simp [Context.afterLeading]
    have leading : (laid.reading rest).leading = [] := rfl
    have token : (laid.reading rest).token = laid.token := rfl
    have kind : (PlacedToken.mk laid.token lexer.position).kind = laid.lexeme.kind := rfl
    simp only [Lexer.next, calm.reading stands fits ahead, leading, entered, token, kind, matched]
    rfl
  have kinds : brackets.map Prod.fst = opened :=
    Option.some.inj ((Context.openAfter?_of_matchBracket matched).symm.trans opens)
  refine ⟨lexer.next.2, Passes.one (congrArg Prod.fst next) notEnd, by rw [next], ?_, ?_⟩
  · rw [next, Context.brackets_afterToken]
    exact kinds
  · intro quiet
    have calmInside : { lexer.context with brackets := brackets }.command ≠ .words := calm.calm
    rw [next]
    refine ⟨Context.command_afterToken_ne calmInside notBare, fun candidate none => ?_⟩
    have trailing : laid.trail.fragments ≠ [] := Context.trailing_ne_nil_of_candidate candidate
    have nothing : brackets = [] := by rwa [Context.brackets_afterToken] at none
    rcases quiet with bare | some
    · cases trail : laid.trail with
      | none => exact trailing (by rw [trail]; rfl)
      | spaces stretch =>
        rw [trail] at bare
        exact stretch.ne_nil bare
      | lineFeed => simp [trail, Trail.text] at bare
    · exact some (by rw [← kinds, nothing]; rfl)

end

private theorem Calm.passes_all {lexer : Lexer} (calm : lexer.Calm) {row : List Laid}
    {rest : List Char}
    (stand : Laid.Stand row rest) (ahead : lexer.rest = Laid.textOf row ++ rest)
    {inner after outer : List Kind}
    (brackets : lexer.context.brackets.map Prod.fst = inner ++ outer)
    (opens : Kind.openAfterAll? (row.map (·.lexeme.kind)) inner = some after)
    (quiet : (∀ laid ∈ row, laid.trail.text = []) ∨ outer ≠ []) :
    ∃ later : Lexer, lexer.Passes (Laid.tokensOf row) later ∧ later.rest = rest ∧
      later.context.brackets.map Prod.fst = after ++ outer ∧ later.Calm := by
  induction row generalizing lexer inner with
  | nil =>
    obtain rfl : inner = after := Option.some.inj opens
    exact ⟨lexer, Passes.refl lexer, by simpa using ahead, brackets, calm⟩
  | cons laid row ih =>
    obtain ⟨stands, visible, fits, stand⟩ := stand
    simp only [List.map_cons, Kind.openAfterAll?, Option.bind_eq_some_iff] at opens
    obtain ⟨middle, first, opens⟩ := opens
    have opensInside := Kind.openAfter?_append first outer
    rw [← brackets] at opensInside
    have whole : lexer.rest = laid.text ++ (Laid.textOf row ++ rest) := by
      simpa [Laid.text] using ahead
    obtain ⟨next, passes, left, opened, quietly⟩ :=
      calm.passes stands visible fits whole opensInside
    have calmNext : next.Calm := quietly (quiet.imp
      (fun bare => bare laid List.mem_cons_self) (List.append_ne_nil_of_right_ne_nil _))
    have quietLater : (∀ laid ∈ row, laid.trail.text = []) ∨ outer ≠ [] :=
      quiet.imp_left fun bare laid member => bare laid (List.mem_cons_of_mem _ member)
    obtain ⟨later, more, done⟩ := ih calmNext stand left opened opens quietLater
    exact ⟨later, passes.trans more, done⟩

end Lexer

namespace Laid

/-- Lexemes that leave the same brackets open that are open before them. -/
def Level (row : List Laid) : Prop :=
  ∀ opened, Kind.openAfterAll? (row.map (·.lexeme.kind)) opened = some opened

theorem Level.append {front back : List Laid} (first : Level front) (second : Level back) :
    Level (front ++ back) := by
  intro opened
  rw [List.map_append, Kind.openAfterAll?_append, first opened]
  exact second opened

theorem tokenize_level {row : List Laid} (stand : Stand row []) (level : Level row)
    (bare : ∀ laid ∈ row, laid.trail.text = []) :
    ∃ stream, tokenize (textOf row) = .ok stream ∧
      stream.tokens.map (·.token) = tokensOf row ∧ stream.eof.token = Token.endOfText ∧
      stream.diagnostics = [] := by
  have outside : (Lexer.start (textOf row)).context.brackets.map Prod.fst = [] ++ [] := rfl
  obtain ⟨later, passes, done, brackets, -⟩ := (Lexer.Calm.start (textOf row)).passes_all stand
    (List.append_nil _).symm outside (level []) (Or.inl bare)
  exact passes.tokenize done (List.map_eq_nil_iff.mp brackets) stand.silent

def enclosed (opening closing : Kind) (row : List Laid) (trail : Trail) : List Laid :=
  ⟨.fixed opening, .none⟩ :: (row ++ [⟨.fixed closing, trail⟩])

section

variable {row : List Laid} {rest : List Char} {trail : Trail}

theorem stand_single {lexeme : Lexeme} (stands : lexeme.Stands (trail.text ++ rest))
    (visible : lexeme.text ≠ []) (fits : trail.Fits rest) : Stand [⟨lexeme, trail⟩] rest :=
  ⟨stands, visible, fits, trivial⟩

theorem fixed_stand {kind : Kind} (alone : kind ∈ Lexeme.solitary) (fits : trail.Fits rest) :
    Stand [⟨.fixed kind, trail⟩] rest := by
  have visible : ∀ kind ∈ Lexeme.solitary, (Lexeme.fixed kind).text ≠ [] := by decide
  exact stand_single (Lexeme.fixed_stands alone _) (visible kind alone) fits

theorem literal_stand (literal : Literal) (fits : trail.Fits rest)
    (ends : Text.Ends (trail.text ++ rest)) : Stand [⟨literal.lexeme, trail⟩] rest :=
  stand_single (literal.solid.stands ends) literal.text_ne_nil fits

theorem stand_enclosed {opening closing : Kind} (opens : opening ∈ Lexeme.solitary)
    (closes : closing ∈ Lexeme.solitary) (fits : trail.Fits rest)
    (stand : Stand row ((Lexeme.fixed closing).text ++ (trail.text ++ rest))) :
    Stand (enclosed opening closing row trail) rest := by
  have inner : Stand (row ++ [⟨.fixed closing, trail⟩]) rest :=
    stand_append.mpr ⟨by simpa using stand, fixed_stand closes fits⟩
  have absent := inner.absent (by simp)
  exact stand_append.mpr ⟨fixed_stand opens (.of_absent absent), inner⟩

theorem literal_enclosed {opening closing : Kind} (opens : opening ∈ Lexeme.solitary)
    (closes : closing ∈ Lexeme.solitary) (literal : Literal) (fits : trail.Fits rest) :
    Stand (enclosed opening closing [⟨literal.lexeme, .none⟩] trail) rest := by
  apply stand_enclosed opens closes fits
  apply literal_stand
  · exact .of_absent (Lexeme.fixed_stands closes _).absent
  · exact Lexeme.fixed_ends closes _

end

theorem tokenize_enclosed {opening closing : Kind} (closes : opening.closing? = some closing)
    {row : List Laid} (level : Level row) (stand : Stand (enclosed opening closing row .none) []) :
    ∃ stream, tokenize (textOf (enclosed opening closing row .none)) = .ok stream ∧
      stream.tokens.map (·.token) = tokensOf (enclosed opening closing row .none) ∧
      stream.eof.token = Token.endOfText ∧ stream.diagnostics = [] := by
  have silent := stand.silent
  obtain ⟨isOpening, isClosing⟩ := Kind.isOpening_of_closing? closes
  obtain ⟨stands, visible, fits, stand⟩ := stand
  have start : (Lexer.start (textOf (enclosed opening closing row .none))).rest =
      text ⟨.fixed opening, .none⟩ ++ (textOf (row ++ [⟨.fixed closing, .none⟩]) ++ []) := by
    simp [Lexer.start, enclosed, text]
  obtain ⟨inside, first, left, opened, calm⟩ := (Lexer.Calm.start _).passes stands visible fits
    start (Kind.openAfter?_of_opening isOpening)
  obtain ⟨stand, ⟨stands, visible, fits, -⟩⟩ := stand_append.mp stand
  have within : inside.context.brackets.map Prod.fst = [] ++ [opening] := opened
  obtain ⟨later, middle, left, opened, calm⟩ := (calm (Or.inr (List.cons_ne_nil _ _))).passes_all
    stand (by simpa using left) within (level []) (Or.inr (List.cons_ne_nil _ _))
  have closed : closing.openAfter? (later.context.brackets.map Prod.fst) = some [] := by
    rw [opened]
    exact (Kind.openAfter?_of_closing isClosing).mpr ⟨opening, rfl, closes⟩
  obtain ⟨final, third, done, brackets, -⟩ := calm.passes stands visible fits
    (by simpa [text] using left) closed
  have passes := first.trans (middle.trans third)
  have tokens : tokensOf (enclosed opening closing row .none) =
      [Laid.token ⟨.fixed opening, .none⟩] ++
        (tokensOf row ++ [Laid.token ⟨.fixed closing, .none⟩]) := by
    simp [tokensOf, enclosed]
  rw [← tokens] at passes
  exact passes.tokenize done (List.map_eq_nil_iff.mp brackets) silent

end Laid

end MatrixScript
