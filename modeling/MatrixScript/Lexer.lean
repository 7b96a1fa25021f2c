import MatrixScript.Lexeme

/-!
Texts as sequences of tokens.

What a character means can hang on what stands before it: a quote after an operand is a transpose,
a name at the start of a statement can open a command whose words are bare. `Context` is what has
to be known of the text so far, `Lexer.next` reads one token, and `Lexer.tokens` reads them all.
Brackets are matched on the way, and a bracket without partner is a failure.
-/

set_option autoImplicit false

namespace MatrixScript

/-- How far the text so far is a command. -/
inductive CommandMode where
  /-- No command. -/
  | none
  /-- A name at the start of a statement, followed by white space. -/
  | candidate
  /-- The bare words of a command. -/
  | words
  deriving DecidableEq, Repr, Inhabited

/-- What the next token hangs on. -/
structure Context where
  /-- Whether a name or closing bracket stands directly before. -/
  touchesOperand : Bool := false
  atLineStart : Bool := true
  atStatementStart : Bool := true
  command : CommandMode := .none
  /-- The open brackets, innermost first. -/
  brackets : List (Kind × Range) := []
  deriving DecidableEq, Repr

/-- One token as it is read off a text, and the text left. -/
structure Reading where
  leading : List Fragment
  lexeme : Lexeme
  trailing : List Fragment
  rest : List Char
  deriving DecidableEq, Repr

namespace Reading

def text (reading : Reading) : List Char :=
  Fragment.textOf reading.leading ++ reading.lexeme.text ++ Fragment.textOf reading.trailing

/-- The problems of a reading that starts at an offset, counted from the start of the text. -/
def found (reading : Reading) (offset : Nat) : List Diagnostic :=
  let start := offset + Text.byteSize (Fragment.textOf reading.leading)
  let stop := start + Text.byteSize reading.lexeme.text
  Fragment.diagnostics reading.leading offset ++
    reading.lexeme.problem.toList.map (·.shift start) ++
    Fragment.diagnostics reading.trailing stop

/-- The problems of a reading, counted from its start. -/
def diagnostics (reading : Reading) : List Diagnostic := reading.found 0

def token (reading : Reading) : Token where
  kind := reading.lexeme.kind
  text := reading.text
  leading := Fragment.pieces reading.leading
  trailing := Fragment.pieces reading.trailing
  value := reading.lexeme.value
  diagnostics := reading.diagnostics

def endsLine (reading : Reading) : Bool := reading.token.endsLine

/-- A name, other than a reserved word, with nothing but white space after it. -/
def isSpacedName (reading : Reading) : Bool :=
  reading.lexeme.kind == .identifier && !Word.isReserved reading.lexeme.text &&
    !reading.trailing.isEmpty && reading.trailing.all (·.kind == .whitespace)

theorem token_fits (reading : Reading) : reading.token.Fits := by
  simp only [Token.Fits, token, Token.leadingWidth, Token.trailingWidth, Token.width, text,
    Fragment.total_pieces, Text.byteSize_append]
  omega

theorem make?_token (reading : Reading) :
    Token.make? reading.lexeme.kind reading.text (Fragment.pieces reading.leading)
      (Fragment.pieces reading.trailing) =
        some { reading.token with value := none, diagnostics := [] } := if_pos reading.token_fits

/-- The significant part of a token that starts at an offset stands where its lexeme was read. -/
theorem token_span (reading : Reading) (offset : Nat) :
    reading.token.span offset =
      Range.ofLength (offset + Text.byteSize (Fragment.textOf reading.leading))
        (Text.byteSize reading.lexeme.text) := by
  simp only [Token.span, Range.ofLength, token, Token.leadingWidth, Token.trailingWidth,
    Token.width, text, Fragment.total_pieces, Text.byteSize_append, Range.mk.injEq, true_and]
  omega

theorem token_trimmed? (reading : Reading) :
    reading.token.trimmed? = some reading.lexeme.text := by
  have parts := Text.slice?_append (Fragment.textOf reading.leading) reading.lexeme.text
    (Fragment.textOf reading.trailing)
  have stop : reading.token.width - reading.token.trailingWidth =
      Text.byteSize (Fragment.textOf reading.leading) + Text.byteSize reading.lexeme.text := by
    simp only [token, Token.width, Token.trailingWidth, text, Fragment.total_pieces,
      Text.byteSize_append]
    omega
  rw [Token.trimmed?, stop]
  simpa [token, Token.leadingWidth, text, Fragment.total_pieces] using parts

theorem found_eq (reading : Reading) (offset : Nat) :
    reading.found offset = reading.diagnostics.map (·.shift offset) := by
  have further (diagnostic : Diagnostic) (bytes : Nat) :
      (diagnostic.shift bytes).shift offset = diagnostic.shift (offset + bytes) := by
    simp only [Diagnostic.shift, Range.shift, Nat.add_assoc, Nat.add_comm bytes]
  simp only [found, diagnostics, List.map_append, Fragment.diagnostics_shift, List.map_map,
    Function.comp_def, further, Nat.zero_add]
  rw [Nat.add_comm _ offset, Nat.add_assoc]

/-- No problem of a reading starts in front of it, so all can be counted from there. -/
theorem since?_found (reading : Reading) (offset : Nat) :
    (reading.found offset).mapM (·.since? offset) = some reading.diagnostics := by
  rw [found_eq]
  generalize reading.diagnostics = diagnostics
  induction diagnostics with
  | nil => rfl
  | cons diagnostic rest ih =>
    rw [List.map_cons, List.mapM_cons, Diagnostic.since?_shift, ih]
    rfl

end Reading

namespace Context

def endStatement (context : Context) : Context :=
  { context with atStatementStart := true, command := .none }

/-- The context after the trivia before a token. -/
def afterLeading (context : Context) (leading : List Fragment) : Context :=
  if leading.any (·.kind == .newline) then context.endStatement else context

/-- Whether a word of a command is next in a text. -/
def expectsBareWord (context : Context) (text : List Char) : Bool :=
  match context.command with
  | .none => false
  | .candidate => context.brackets.isEmpty && Lexeme.startsBareWord text
  | .words => text.head?.any fun c => c != ';' && c != ','

def readLexeme (context : Context) (text : List Char) : Lexeme × List Char :=
  if context.expectsBareWord text then Lexeme.readBareWord text
  else Lexeme.read context.touchesOperand text

/-- Only where a word of a command is expected is one read. -/
theorem readLexeme_unquoted_iff (context : Context) (text : List Char) :
    (context.readLexeme text).1.kind = .unquotedStringLiteral ↔
      context.expectsBareWord text = true := by
  unfold readLexeme
  split
  · exact iff_of_true rfl ‹_›
  · exact iff_of_false (Lexeme.read_kind_ne_unquoted _ _) ‹_›

def read (context : Context) (text : List Char) : Reading :=
  let (leading, afterLeading) := Fragment.leading context.atLineStart text
  let (lexeme, afterLexeme) := (context.afterLeading leading).readLexeme afterLeading
  let (trailing, rest) := Fragment.trailing afterLexeme
  ⟨leading, lexeme, trailing, rest⟩

/-- The open brackets after a token; a closing bracket must match the innermost open one, and at
the end of the text none may be open. -/
def matchBracket (brackets : List (Kind × Range)) (kind : Kind) (range : Range) :
    Except Failure (List (Kind × Range)) :=
  if kind.isOpening then .ok ((kind, range) :: brackets)
  else if kind.isClosing then
    match brackets with
    | (opening, _) :: outer =>
      if opening.closing? = some kind then .ok outer
      else .error ⟨⟨.unmatchedClosingBracket kind, range⟩⟩
    | [] => .error ⟨⟨.unmatchedClosingBracket kind, range⟩⟩
  else if kind = .eof then
    match brackets with
    | (opening, place) :: _ => .error ⟨⟨.unmatchedOpeningBracket opening, place⟩⟩
    | [] => .ok []
  else .ok brackets

def commandAfter (context : Context) (reading : Reading) : CommandMode :=
  if reading.lexeme.kind == .unquotedStringLiteral || context.command == .words then .words
  else if context.atStatementStart && reading.isSpacedName then .candidate
  else .none

/-- The context after a token, whose brackets are matched already. -/
def afterToken (context : Context) (reading : Reading) : Context :=
  let kind := reading.lexeme.kind
  let next : Context := {
    touchesOperand := (kind == .identifier || kind.isClosing) && reading.trailing.isEmpty
    atLineStart := reading.endsLine
    atStatementStart := false
    command := context.commandAfter reading
    brackets := context.brackets }
  let separates := (kind == .semicolon || kind == .comma) && context.brackets.isEmpty
  if reading.endsLine || separates then next.endStatement else next

theorem readLexeme_append (context : Context) (text : List Char) :
    (context.readLexeme text).1.text ++ (context.readLexeme text).2 = text := by
  unfold readLexeme
  split
  · exact Lexeme.readBareWord_append text
  · exact Lexeme.read_append _ text

/-- Reading a token parts the text. -/
theorem read_append (context : Context) (text : List Char) :
    (context.read text).text ++ (context.read text).rest = text := by
  let front := Fragment.leading context.atLineStart text
  let middle := (context.afterLeading front.1).readLexeme front.2
  calc (context.read text).text ++ (context.read text).rest
    _ = Fragment.textOf front.1 ++ (middle.1.text ++
          (Fragment.textOf (Fragment.trailing middle.2).1 ++ (Fragment.trailing middle.2).2)) := by
      simp [read, Reading.text, front, middle]
    _ = Fragment.textOf front.1 ++ (middle.1.text ++ middle.2) := by
      rw [Fragment.trailing_append]
    _ = text := by
      rw [readLexeme_append, Fragment.leading_append]

private theorem readLexeme_ne_nil {context : Context} {text : List Char}
    (blank : ∀ c ∈ text.head?, Fragment.isHorizontal c = false ∧ Fragment.isLineEnd c = false)
    (h : (context.readLexeme text).1.kind ≠ .eof) : (context.readLexeme text).1.text ≠ [] := by
  unfold readLexeme at h ⊢
  cases text with
  | nil =>
    split
    · rename_i word
      simp only [expectsBareWord, Lexeme.startsBareWord, List.head?_nil, Option.any_none] at word
      split at word <;> simp at word
    · simp_all [Lexeme.read]
  | cons c rest =>
    split
    · rename_i word
      apply Lexeme.readBareWord_text_ne_nil
      have := blank c rfl
      simp only [expectsBareWord, Lexeme.startsBareWord, List.head?_cons, Option.any_some] at word
      split at word <;> simp_all [Lexeme.endsBareWord]
    · exact Lexeme.read_text_ne_nil (by simp)

/-- Only the end of the text is read as an empty lexeme. -/
theorem read_lexeme_ne_nil {context : Context} {text : List Char}
    (h : (context.read text).lexeme.kind ≠ .eof) : (context.read text).lexeme.text ≠ [] := by
  refine readLexeme_ne_nil ?_ h
  intro c front
  obtain ⟨rest, back⟩ := List.head?_eq_some_iff.1 front
  exact Fragment.run_rest back

end Context

/-- A token and where its full text starts. -/
structure PlacedToken where
  token : Token
  position : Position
  deriving DecidableEq, Repr

namespace PlacedToken

def kind (placed : PlacedToken) : Kind := placed.token.kind

def fullStart (placed : PlacedToken) : Nat := placed.position.offset

def fullRange (placed : PlacedToken) : Range :=
  Range.ofLength placed.fullStart placed.token.width

def range (placed : PlacedToken) : Range := placed.token.span placed.fullStart

/-- The diagnostics of the token, counted from the start of the text. -/
def diagnostics (placed : PlacedToken) : List Diagnostic :=
  placed.token.diagnostics.map (·.shift placed.fullStart)

end PlacedToken

/-- A text cut into tokens: those before the end of the text, and the one at the end, which holds
the last trivia. -/
structure TokenStream where
  tokens : List PlacedToken
  eof : PlacedToken
  deriving DecidableEq, Repr

namespace TokenStream

def push (stream : TokenStream) (placed : PlacedToken) : TokenStream :=
  { stream with tokens := placed :: stream.tokens }

def toList (stream : TokenStream) : List PlacedToken := stream.tokens ++ [stream.eof]

def diagnostics (stream : TokenStream) : List Diagnostic :=
  stream.toList.flatMap PlacedToken.diagnostics

end TokenStream

/-- A text that is being cut into tokens. -/
structure Lexer where
  rest : List Char
  position : Position
  context : Context
  deriving DecidableEq, Repr

namespace Lexer

def start (text : List Char) : Lexer := ⟨text, Position.start, {}⟩

/-- Reads one token. The text is used up also where a bracket fails, but then nothing is known of
the token afterwards. -/
def next (lexer : Lexer) : Except Failure PlacedToken × Lexer :=
  let reading := lexer.context.read lexer.rest
  let entered := lexer.context.afterLeading reading.leading
  let placed : PlacedToken := ⟨reading.token, lexer.position⟩
  let position := lexer.position.advance reading.text
  match Context.matchBracket entered.brackets placed.kind placed.range with
  | .error failure => (.error failure, ⟨reading.rest, position, entered⟩)
  | .ok brackets =>
    (.ok placed, ⟨reading.rest, position, { entered with brackets := brackets }.afterToken reading⟩)

def reading (lexer : Lexer) : Reading := lexer.context.read lexer.rest

/-- The context once the trivia before the next token is read. -/
def entered (lexer : Lexer) : Context :=
  lexer.context.afterLeading lexer.reading.leading

/-- The open brackets once the next token is read. -/
def bracketsAfter (lexer : Lexer) : Except Failure (List (Kind × Range)) :=
  Context.matchBracket lexer.entered.brackets lexer.reading.token.kind
    (PlacedToken.range ⟨lexer.reading.token, lexer.position⟩)

theorem next_eq (lexer : Lexer) :
    lexer.next =
      match lexer.bracketsAfter with
      | .error failure => (.error failure,
          ⟨lexer.reading.rest, lexer.position.advance lexer.reading.text, lexer.entered⟩)
      | .ok brackets => (.ok ⟨lexer.reading.token, lexer.position⟩,
          ⟨lexer.reading.rest, lexer.position.advance lexer.reading.text,
            { lexer.entered with brackets := brackets }.afterToken lexer.reading⟩) := rfl

theorem next_eq_ok {lexer : Lexer} {placed : PlacedToken} (ok : lexer.next.1 = .ok placed) :
    placed = ⟨lexer.reading.token, lexer.position⟩ := by
  simp only [next] at ok
  split at ok
  · simp at ok
  · simp only [Except.ok.injEq] at ok
    exact ok.symm

/-- What a token tells was found by the call that yields it. -/
theorem diagnostics_eq_found {lexer : Lexer} {placed : PlacedToken}
    (yields : lexer.next.1 = .ok placed) :
    placed.diagnostics = lexer.reading.found lexer.position.offset ∧
      placed.token.diagnostics = lexer.reading.diagnostics := by
  rw [next_eq_ok yields, Reading.found_eq]
  exact ⟨rfl, rfl⟩

/-- What `next` leaves is the rest of what it was given. -/
theorem next_rest (lexer : Lexer) :
    lexer.next.2.rest = (lexer.context.read lexer.rest).rest := by
  simp only [next]
  split <;> rfl

private theorem next_kind {lexer : Lexer} {placed : PlacedToken} (h : lexer.next.1 = .ok placed) :
    placed.kind = (lexer.context.read lexer.rest).lexeme.kind := by
  simp only [next] at h
  split at h
  · simp at h
  · simp only [Except.ok.injEq] at h
    subst h
    rfl

/-- A token other than the end of the text takes something. -/
theorem next_length_lt {lexer : Lexer} {placed : PlacedToken} (h : lexer.next.1 = .ok placed)
    (notEnd : placed.kind ≠ .eof) : lexer.next.2.rest.length < lexer.rest.length := by
  rw [next_rest]
  have parts := lexer.context.read_append lexer.rest
  have taken := List.length_pos_iff.2 (Context.read_lexeme_ne_nil (next_kind h ▸ notEnd))
  have lengths := congrArg List.length parts
  simp only [Reading.text, List.length_append] at lengths
  omega

/-- What `count` calls of `next` give, failed or not. -/
def steps (lexer : Lexer) : Nat → List (Except Failure PlacedToken)
  | 0 => []
  | count + 1 =>
    let (result, after) := lexer.next
    result :: after.steps count

def tokens (lexer : Lexer) : Except Failure TokenStream :=
  match _h : lexer.next.1 with
  | .error failure => .error failure
  | .ok placed =>
    if _end : placed.kind = .eof then .ok ⟨[], placed⟩
    else lexer.next.2.tokens.map (·.push placed)
termination_by lexer.rest.length
decreasing_by exact next_length_lt _h _end

theorem tokens_of_error {lexer : Lexer} {failure : Failure}
    (fails : lexer.next.1 = .error failure) : lexer.tokens = .error failure := by
  rw [tokens]
  split <;> simp_all

theorem tokens_of_ok {lexer : Lexer} {placed : PlacedToken} (yields : lexer.next.1 = .ok placed) :
    lexer.tokens = if placed.kind = .eof then .ok ⟨[], placed⟩
      else lexer.next.2.tokens.map (·.push placed) := by
  rw [tokens]
  split
  · simp_all
  · simp_all

end Lexer

def tokenize (text : List Char) : Except Failure TokenStream := (Lexer.start text).tokens

end MatrixScript
