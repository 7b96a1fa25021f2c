import MatrixScript.Lexer
import MatrixScript.Text.Window

/-!
A lexer with its buffers.

`Lexer` keeps what the next token hangs on. A `BufferedLexer` moves a cursor, and keeps in buffers
what a token is made of: its pieces of trivia and its problems. A problem is found with its range in
the text, goes also into a bag for the whole text, and is counted from its token when that is made.
Slices inside a character, trivia longer than its token and ranges in front of it would be refused.
None is: between calls the buffers are empty, a call does what `Lexer.next` does
(`BufferedLexer.next?_eq`), and so every text is cut into the tokens of `tokenize`, with their
problems in the bag (`lex_eq`).
-/

set_option autoImplicit false

namespace MatrixScript

/-- The tokens of a text and all their problems. -/
structure Lexed where
  stream : TokenStream
  diagnostics : List Diagnostic
  deriving DecidableEq, Repr

def Lexed.push (lexed : Lexed) (placed : PlacedToken) : Lexed :=
  { lexed with stream := lexed.stream.push placed }

/-- A lexer at a place of its text. -/
structure BufferedLexer where
  window : Window
  /-- All problems so far. -/
  bag : List Diagnostic := []
  /-- The problems of the token that is being read, counted from the start of the text. -/
  pending : List Diagnostic := []
  /-- The trivia of the token that is being read. -/
  pieces : List Piece := []
  /-- The open brackets, innermost first. -/
  brackets : List (Kind × Range) := []
  lastKind? : Option Kind := none
  lastHadTrailing : Bool := false
  atLineStart : Bool := true
  tokensOnStatement : Nat := 0
  commandCandidate : Bool := false
  inCommand : Bool := false
  deriving DecidableEq, Repr

namespace BufferedLexer

def start (text : List Char) : BufferedLexer := { window := Window.start text }

def endStatement (lexer : BufferedLexer) : BufferedLexer :=
  { lexer with tokensOnStatement := 0, inCommand := false, commandCandidate := false }

/-- Moves over a stretch of text in which problems were found. -/
def pass (lexer : BufferedLexer) (text : List Char) (found : List Diagnostic) : BufferedLexer :=
  { lexer with
    window := lexer.window.consumeMany text.length
    bag := lexer.bag ++ found
    pending := lexer.pending ++ found }

def passFragment (lexer : BufferedLexer) (fragment : Fragment) : BufferedLexer :=
  let start := lexer.window.offset
  let stop := (lexer.window.consumeMany fragment.text.length).offset
  let found := fragment.problem.toList.map fun problem => Diagnostic.mk problem ⟨start, stop⟩
  { lexer.pass fragment.text found with pieces := lexer.pieces ++ [⟨fragment.kind, stop - start⟩] }

private theorem passFragment_rest {lexer : BufferedLexer} {atLineStart : Bool} {fragment : Fragment}
    {rest : List Char}
    (next : Fragment.next? atLineStart lexer.window.rest = some (fragment, rest)) :
    (lexer.passFragment fragment).window.rest = rest := by
  show lexer.window.rest.drop fragment.text.length = rest
  rw [← (Fragment.next?_append next).1, List.drop_left]

/-- Moves over all trivia in front. After a token it ends with the line. -/
def passTrivia (trailing atLineStart : Bool) (lexer : BufferedLexer) : BufferedLexer :=
  match _h : Fragment.next? atLineStart lexer.window.rest with
  | none => lexer
  | some (fragment, _) =>
    let passed := lexer.passFragment fragment
    if trailing && fragment.kind == .newline then passed
    else passed.passTrivia trailing (Fragment.startsLine atLineStart fragment.kind)
termination_by lexer.window.rest.length
decreasing_by
  rw [passFragment_rest _h]
  exact Fragment.next?_length_lt _h

def expectsBareWord (lexer : BufferedLexer) : Bool :=
  if lexer.inCommand then lexer.window.peek?.any fun c => c != ';' && c != ','
  else lexer.commandCandidate && lexer.brackets.isEmpty && Lexeme.startsBareWord lexer.window.rest

def touchesOperand (lexer : BufferedLexer) : Bool :=
  lexer.lastKind?.any (fun kind => kind == .identifier || kind.isClosing) && !lexer.lastHadTrailing

def passLexeme (lexer : BufferedLexer) : Lexeme × BufferedLexer :=
  let bare := lexer.expectsBareWord
  let lexeme := if bare then (Lexeme.readBareWord lexer.window.rest).1
    else (Lexeme.read lexer.touchesOperand lexer.window.rest).1
  let found := lexeme.problem.toList.map (·.shift lexer.window.offset)
  (lexeme, { lexer.pass lexeme.text found with inCommand := lexer.inCommand || bare })

/-- A token in the buffers of a lexer: its lexeme with the range, how many of its pieces stand in
front, and where its full text starts. -/
structure Draft where
  lexeme : Lexeme
  range : Range
  leading : Nat
  position : Position
  deriving DecidableEq, Repr

/-- A line break in front of a token ends the statement. -/
def enter (lexer : BufferedLexer) : BufferedLexer :=
  if lexer.pieces.any (·.kind == .newline) then lexer.endStatement else lexer

def draft (lexer : BufferedLexer) : Draft × BufferedLexer :=
  let entered := (lexer.passTrivia false lexer.atLineStart).enter
  let (lexeme, read) := entered.passLexeme
  let range : Range := ⟨entered.window.offset, read.window.offset⟩
  (⟨lexeme, range, entered.pieces.length, lexer.window.position⟩, read.passTrivia true false)

def token? (lexer : BufferedLexer) (draft : Draft) : Option Token := do
  let text ← lexer.window.textFrom? draft.position.offset
  let token ← Token.make? draft.lexeme.kind text (lexer.pieces.take draft.leading)
    (lexer.pieces.drop draft.leading)
  let diagnostics ← lexer.pending.mapM (·.since? draft.position.offset)
  return (draft.lexeme.value.elim token token.withValue).withDiagnostics diagnostics

/-- What is kept of a token, spelled `word`, for those after it. -/
def note (lexer : BufferedLexer) (token : Token) (word : List Char) : BufferedLexer :=
  { lexer with
    commandCandidate := token.kind == .identifier && lexer.tokensOnStatement == 0 &&
      !lexer.inCommand && !Word.isReserved word && !token.trailing.isEmpty &&
      token.trailing.all (·.kind == .whitespace)
    lastKind? := some token.kind
    lastHadTrailing := !token.trailing.isEmpty
    tokensOnStatement := lexer.tokensOnStatement + 1
    atLineStart := token.endsLine }

def afterToken? (lexer : BufferedLexer) (token : Token) : Option BufferedLexer := do
  let word ← token.trimmed?
  let separates := (token.kind == .semicolon || token.kind == .comma) && lexer.brackets.isEmpty
  let noted := lexer.note token word
  return if token.endsLine || separates then noted.endStatement else noted

/-- Clears the buffers behind a token, and matches its bracket. -/
def finish? (lexer : BufferedLexer) (draft : Draft) (token : Token) :
    Option (Except Failure PlacedToken × BufferedLexer) :=
  let cleared := { lexer with pieces := [], pending := [] }
  match Context.matchBracket lexer.brackets draft.lexeme.kind draft.range with
  | .error failure => some (.error failure, cleared)
  | .ok brackets => do
    let after ← { cleared with brackets := brackets }.afterToken? token
    return (.ok ⟨token, draft.position⟩, after)

def next? (lexer : BufferedLexer) : Option (Except Failure PlacedToken × BufferedLexer) := do
  let (draft, filled) := lexer.draft
  let token ← filled.token? draft
  filled.finish? draft token

def gather (lexer : BufferedLexer) (fragments : List Fragment) : BufferedLexer :=
  { lexer.pass (Fragment.textOf fragments) (Fragment.diagnostics fragments lexer.window.offset) with
    pieces := lexer.pieces ++ Fragment.pieces fragments }

private theorem gather_nil (lexer : BufferedLexer) : lexer.gather [] = lexer := by
  simp [gather, pass, Fragment.textOf, Fragment.diagnostics, Fragment.pieces,
    Window.consumeMany_zero]

private theorem gather_cons {lexer : BufferedLexer} {fragment : Fragment} {rest : List Char}
    (here : fragment.text ++ rest = lexer.window.rest) (fragments : List Fragment) :
    (lexer.passFragment fragment).gather fragments = lexer.gather (fragment :: fragments) := by
  have stop := Window.offset_consumeMany here
  have offset : (lexer.passFragment fragment).window.offset =
      lexer.window.offset + Text.byteSize fragment.text := stop
  have length : lexer.window.offset + Text.byteSize fragment.text - lexer.window.offset =
      Text.byteSize fragment.text := Nat.add_sub_cancel_left _ _
  simp only [gather, pass, offset]
  simp only [passFragment, pass, stop, length, Fragment.textOf, Fragment.diagnostics,
    Fragment.pieces, List.flatMap_cons, List.length_append, List.map_cons, List.append_assoc,
    List.singleton_append, Window.consumeMany_add, Range.ofLength]

private theorem passTrivia_eq (trailing atLineStart : Bool) (lexer : BufferedLexer) :
    lexer.passTrivia trailing atLineStart =
      lexer.gather (Fragment.run trailing atLineStart lexer.window.rest).1 := by
  fun_induction passTrivia trailing atLineStart lexer with
  | case1 atLineStart lexer none => rw [Fragment.run_of_none none, gather_nil]
  | case2 atLineStart lexer fragment rest next passed stops =>
    rw [Fragment.run_of_some next, if_pos stops, ← gather_cons (Fragment.next?_append next).1,
      gather_nil]
  | case3 atLineStart lexer fragment rest next passed goesOn ih =>
    rw [Fragment.run_of_some next, if_neg goesOn, ← gather_cons (Fragment.next?_append next).1, ih,
      passFragment_rest next]

/-- What of a buffered lexer the next token hangs on. -/
def context (lexer : BufferedLexer) : Context where
  touchesOperand := lexer.touchesOperand
  atLineStart := lexer.atLineStart
  atStatementStart := lexer.tokensOnStatement == 0
  command :=
    if lexer.inCommand then .words else if lexer.commandCandidate then .candidate else .none
  brackets := lexer.brackets

def plain (lexer : BufferedLexer) : Lexer :=
  ⟨lexer.window.rest, lexer.window.position, lexer.context⟩

private theorem expectsBareWord_eq (lexer : BufferedLexer) :
    lexer.expectsBareWord = lexer.context.expectsBareWord lexer.window.rest := by
  have peek : lexer.window.peek? = lexer.window.rest.head? := List.head?_eq_getElem?.symm
  cases words : lexer.inCommand <;> cases candidate : lexer.commandCandidate <;>
    simp [expectsBareWord, Context.expectsBareWord, context, words, candidate, peek]

private theorem passLexeme_fst (lexer : BufferedLexer) :
    lexer.passLexeme.1 = (lexer.context.readLexeme lexer.window.rest).1 := by
  rw [passLexeme, Context.readLexeme, expectsBareWord_eq, apply_ite Prod.fst]
  rfl

private theorem passLexeme_inCommand (lexer : BufferedLexer) : lexer.passLexeme.2.inCommand =
    (lexer.passLexeme.1.kind == .unquotedStringLiteral || lexer.context.command == .words) := by
  have bare : lexer.expectsBareWord = (lexer.passLexeme.1.kind == .unquotedStringLiteral) := by
    rw [passLexeme_fst, expectsBareWord_eq, Bool.eq_iff_iff, beq_iff_eq,
      Context.readLexeme_unquoted_iff]
  have words : lexer.inCommand = (lexer.context.command == .words) := by
    cases inside : lexer.inCommand <;> cases candidate : lexer.commandCandidate <;>
      simp [context, inside, candidate]
  rw [← bare, ← words, Bool.or_comm]
  rfl

private theorem passLexeme_context (lexer : BufferedLexer) : lexer.passLexeme.2.context =
    { lexer.context with command :=
        if lexer.passLexeme.2.inCommand then .words else lexer.context.command } := by
  cases inside : lexer.inCommand <;> cases bare : lexer.expectsBareWord <;>
    simp [passLexeme, pass, context, touchesOperand, inside, bare]

private theorem enter_context {lexer : BufferedLexer} {leading : List Fragment}
    (pieces : lexer.pieces = Fragment.pieces leading) :
    lexer.enter.context = lexer.context.afterLeading leading := by
  have breaks : lexer.pieces.any (·.kind == .newline) = leading.any (·.kind == .newline) := by
    rw [pieces, Fragment.pieces, List.any_map]
    rfl
  rw [enter, Context.afterLeading, breaks]
  split
  · rfl
  · rfl

/-- A lexer that has moved over a stretch of text, with what its buffers have taken in. -/
structure Passes (lexer after : BufferedLexer) (text : List Char) (found : List Diagnostic)
    (pieces : List Piece) : Prop where
  window : after.window = lexer.window.consumeMany text.length
  bag : after.bag = lexer.bag ++ found
  pending : after.pending = lexer.pending ++ found
  pieces : after.pieces = lexer.pieces ++ pieces

namespace Passes

private theorem trans {first second third : BufferedLexer} {text more : List Char}
    {found later : List Diagnostic} {pieces others : List Piece}
    (front : first.Passes second text found pieces) (back : second.Passes third more later others) :
    first.Passes third (text ++ more) (found ++ later) (pieces ++ others) where
  window := by rw [back.window, front.window, List.length_append, Window.consumeMany_add]
  bag := by rw [back.bag, front.bag, List.append_assoc]
  pending := by rw [back.pending, front.pending, List.append_assoc]
  pieces := by rw [back.pieces, front.pieces, List.append_assoc]

private theorem enter (lexer : BufferedLexer) : lexer.Passes lexer.enter [] [] [] := by
  unfold BufferedLexer.enter
  split
  · exact ⟨rfl, (List.append_nil _).symm, (List.append_nil _).symm, (List.append_nil _).symm⟩
  · exact ⟨rfl, (List.append_nil _).symm, (List.append_nil _).symm, (List.append_nil _).symm⟩

private theorem trivia (trailing atLineStart : Bool) (lexer : BufferedLexer) :
    let fragments := (Fragment.run trailing atLineStart lexer.window.rest).1
    lexer.Passes (lexer.passTrivia trailing atLineStart) (Fragment.textOf fragments)
      (Fragment.diagnostics fragments lexer.window.offset) (Fragment.pieces fragments) := by
  rw [passTrivia_eq]
  exact ⟨rfl, rfl, rfl, rfl⟩

private theorem lexeme (lexer : BufferedLexer) :
    let lexeme := (lexer.context.readLexeme lexer.window.rest).1
    lexer.Passes lexer.passLexeme.2 lexeme.text
      (lexeme.problem.toList.map (·.shift lexer.window.offset)) [] := by
  rw [← passLexeme_fst]
  exact ⟨rfl, rfl, rfl, (List.append_nil _).symm⟩

private theorem place {lexer after : BufferedLexer} {text rest : List Char}
    {found : List Diagnostic}
    {pieces : List Piece} (passes : lexer.Passes after text found pieces)
    (parts : text ++ rest = lexer.window.rest) :
    after.window.rest = rest ∧
      after.window.offset = lexer.window.offset + Text.byteSize text := by
  rw [passes.window]
  exact ⟨Window.rest_consumeMany parts, Window.offset_consumeMany parts⟩

end Passes

/-- What the buffers hold when a token was passed. -/
structure Drafts (lexer : BufferedLexer) (reading : Reading) (draft : Draft)
    (filled : BufferedLexer) : Prop where
  passes : lexer.Passes filled reading.text (reading.found lexer.window.offset)
    (Fragment.pieces reading.leading ++ Fragment.pieces reading.trailing)
  lexeme : draft.lexeme = reading.lexeme
  range : draft.range = reading.token.span lexer.window.offset
  leading : draft.leading = reading.leading.length
  position : draft.position = lexer.window.position
  words : filled.inCommand = (reading.lexeme.kind == .unquotedStringLiteral ||
    (lexer.context.afterLeading reading.leading).command == .words)
  context : filled.context = { lexer.context.afterLeading reading.leading with
    command := if filled.inCommand then .words
      else (lexer.context.afterLeading reading.leading).command }

private theorem draft_drafts {lexer : BufferedLexer} (empty : lexer.pieces = []) :
    lexer.Drafts (lexer.context.read lexer.window.rest) lexer.draft.1 lexer.draft.2 := by
  let leading := Fragment.leading lexer.atLineStart lexer.window.rest
  let entered := (lexer.passTrivia false lexer.atLineStart).enter
  let read := entered.passLexeme.2
  have front : lexer.Passes entered (Fragment.textOf leading.1)
      (Fragment.diagnostics leading.1 lexer.window.offset) (Fragment.pieces leading.1) := by
    have passes := (Passes.trivia false lexer.atLineStart lexer).trans (Passes.enter _)
    rwa [List.append_nil, List.append_nil, List.append_nil] at passes
  obtain ⟨rest, offset⟩ := front.place (Fragment.leading_append _ _)
  have context : entered.context = lexer.context.afterLeading leading.1 := by
    have pieces :
        (lexer.passTrivia false lexer.atLineStart).pieces = Fragment.pieces leading.1 := by
      rw [(Passes.trivia false lexer.atLineStart lexer).pieces, empty, List.nil_append]
      rfl
    rw [enter_context pieces, passTrivia_eq]
    rfl
  have middle := Passes.lexeme entered
  have last := Passes.trivia true false read
  have parts := (lexer.context.afterLeading leading.1).readLexeme_append leading.2
  rw [context, rest, offset] at middle
  obtain ⟨rest', offset'⟩ := middle.place (parts.trans rest.symm)
  rw [rest', offset', offset] at last
  have passes := (front.trans middle).trans last
  rw [List.append_nil] at passes
  have lexeme : lexer.draft.1.lexeme =
      ((lexer.context.afterLeading leading.1).readLexeme leading.2).1 := by
    rw [← context, ← rest, ← passLexeme_fst]
    rfl
  have filled : lexer.draft.2.inCommand = read.inCommand ∧
      lexer.draft.2.context = read.context := by
    show (read.passTrivia true false).inCommand = _ ∧ (read.passTrivia true false).context = _
    rw [passTrivia_eq]
    exact ⟨rfl, rfl⟩
  exact {
    passes := passes
    lexeme := lexeme
    range := by
      rw [Reading.token_span]
      show Range.mk entered.window.offset read.window.offset = _
      rw [offset', offset]
      rfl
    leading := by
      show entered.pieces.length = leading.1.length
      rw [front.pieces, empty, List.nil_append, Fragment.pieces, List.length_map]
    position := rfl
    words := by
      rw [filled.1, passLexeme_inCommand, context]
      exact congrArg (fun lexeme : Lexeme => lexeme.kind == .unquotedStringLiteral || _) lexeme
    context := by
      rw [filled.1, filled.2, passLexeme_context, context]
      rfl }

/-- A lexer between two calls. -/
structure Idle (lexer : BufferedLexer) : Prop where
  place : ∃ front, front ++ lexer.window.rest = lexer.window.text ∧
    lexer.window.offset = Text.byteSize front
  pending : lexer.pending = []
  pieces : lexer.pieces = []

namespace Drafts

variable {lexer filled : BufferedLexer} {reading : Reading} {draft : Draft}

private theorem token?_eq (drafts : lexer.Drafts reading draft filled) (idle : lexer.Idle)
    (parts : reading.text ++ reading.rest = lexer.window.rest) :
    filled.token? draft = some reading.token := by
  obtain ⟨front, whole, offset⟩ := idle.place
  have pieces := drafts.passes.pieces
  rw [idle.pieces, List.nil_append] at pieces
  have pending := drafts.passes.pending
  rw [idle.pending, List.nil_append] at pending
  have length : (Fragment.pieces reading.leading).length = reading.leading.length :=
    List.length_map _
  have text : filled.window.textFrom? lexer.window.offset = some reading.text := by
    have slice := Text.slice?_append front reading.text reading.rest
    rw [parts, whole, ← offset, ← (drafts.passes.place parts).2] at slice
    rw [Window.textFrom?, drafts.passes.window]
    rwa [drafts.passes.window] at slice
  have problems : (reading.found lexer.window.offset).mapM (·.since? lexer.window.offset) =
      some reading.diagnostics := reading.since?_found _
  have offset : draft.position.offset = lexer.window.offset := congrArg _ drafts.position
  rw [token?, offset, drafts.lexeme, drafts.leading, pieces, pending, ← length, List.take_left,
    List.drop_left]
  simp only [text, reading.make?_token, problems, bind, Option.bind, pure]
  cases value : reading.lexeme.value <;>
    simp [Token.withValue, Token.withDiagnostics, Reading.token, value]

private theorem context_eq (drafts : lexer.Drafts reading draft filled)
    (notWord : reading.lexeme.kind ≠ .unquotedStringLiteral) :
    filled.context = lexer.context.afterLeading reading.leading := by
  have words := drafts.words
  rw [beq_eq_false_iff_ne.mpr notWord, Bool.false_or] at words
  rw [drafts.context, words]
  obtain ⟨touches, line, statement, command, brackets⟩ :=
    lexer.context.afterLeading reading.leading
  cases command <;> rfl

end Drafts

section AfterToken

variable {lexer : BufferedLexer} {context : Context} {reading : Reading}

private theorem note_context (brackets : lexer.brackets = context.brackets)
    (counts : (lexer.tokensOnStatement == 0) = context.atStatementStart)
    (words : lexer.inCommand =
      (reading.lexeme.kind == .unquotedStringLiteral || context.command == .words)) :
    (lexer.note reading.token reading.lexeme.text).context = {
      touchesOperand := (reading.lexeme.kind == .identifier || reading.lexeme.kind.isClosing) &&
        reading.trailing.isEmpty
      atLineStart := reading.endsLine
      atStatementStart := false
      command := context.commandAfter reading
      brackets := context.brackets } := by
  have bare : reading.token.trailing.isEmpty = reading.trailing.isEmpty := List.isEmpty_map
  have blank : reading.token.trailing.all (·.kind == .whitespace) =
      reading.trailing.all (·.kind == .whitespace) := List.all_map
  have candidate : (lexer.note reading.token reading.lexeme.text).commandCandidate =
      (!lexer.inCommand && (context.atStatementStart && reading.isSpacedName)) := by
    have kind : reading.token.kind = reading.lexeme.kind := rfl
    simp only [note, counts, bare, blank, kind, Reading.isSpacedName]
    ac_rfl
  have command : (lexer.note reading.token reading.lexeme.text).context.command =
      context.commandAfter reading := by
    rw [BufferedLexer.context, candidate, Context.commandAfter, ← words]
    cases inside : lexer.inCommand <;> simp [note, inside]
  have touches : (lexer.note reading.token reading.lexeme.text).touchesOperand =
      ((reading.lexeme.kind == .identifier || reading.lexeme.kind.isClosing) &&
        reading.trailing.isEmpty) := by
    rw [← bare, ← Bool.not_not reading.token.trailing.isEmpty]
    rfl
  rw [← touches, ← command, ← brackets]
  rfl

private theorem afterToken?_eq (brackets : lexer.brackets = context.brackets)
    (counts : (lexer.tokensOnStatement == 0) = context.atStatementStart)
    (words : lexer.inCommand =
      (reading.lexeme.kind == .unquotedStringLiteral || context.command == .words)) :
    ∃ after, lexer.afterToken? reading.token = some after ∧
      after.context = context.afterToken reading ∧
      after.window = lexer.window ∧ after.bag = lexer.bag ∧
      after.pending = lexer.pending ∧ after.pieces = lexer.pieces := by
  have noted := note_context brackets counts words
  rw [afterToken?, reading.token_trimmed?, Context.afterToken, ← noted, brackets]
  refine ⟨_, rfl, ?_⟩
  have ends : reading.token.endsLine = reading.endsLine := rfl
  have kind : reading.token.kind = reading.lexeme.kind := rfl
  rw [ends, kind]
  split
  · exact ⟨rfl, rfl, rfl, rfl, rfl⟩
  · exact ⟨rfl, rfl, rfl, rfl, rfl⟩

end AfterToken

private theorem Idle.clear {lexer filled after : BufferedLexer} {text rest : List Char}
    {found : List Diagnostic} {pieces : List Piece} (idle : lexer.Idle)
    (passes : lexer.Passes filled text found pieces) (parts : text ++ rest = lexer.window.rest)
    (window : after.window = filled.window) (pending : after.pending = [])
    (empty : after.pieces = []) : after.Idle where
  place := by
    obtain ⟨front, whole, offset⟩ := idle.place
    obtain ⟨left, stop⟩ := passes.place parts
    refine ⟨front ++ text, ?_, ?_⟩
    · rw [window, left, List.append_assoc, parts, whole, passes.window]
      rfl
    · rw [window, stop, offset, Text.byteSize_append]
  pending := pending
  pieces := empty

/-- A call reads what `Lexer.next` reads. Its problems go into the bag, and the buffers are empty
again. -/
theorem next?_eq {lexer : BufferedLexer} (idle : lexer.Idle) :
    ∃ after, lexer.next? = some (lexer.plain.next.1, after) ∧ after.plain = lexer.plain.next.2 ∧
      after.bag = lexer.bag ++ lexer.plain.reading.found lexer.window.offset ∧ after.Idle := by
  let reading := lexer.plain.reading
  let entered := lexer.plain.entered
  let filled := lexer.draft.2
  have drafts : lexer.Drafts reading lexer.draft.1 filled := draft_drafts idle.pieces
  have parts : reading.text ++ reading.rest = lexer.window.rest := lexer.context.read_append _
  have brackets : filled.brackets = entered.brackets := congrArg Context.brackets drafts.context
  have rest : filled.window.rest = reading.rest := (drafts.passes.place parts).1
  have position : filled.window.position = lexer.window.position.advance reading.text := by
    rw [drafts.passes.window]
    exact Window.position_consumeMany parts
  have next : lexer.next? = filled.finish? lexer.draft.1 reading.token := by
    show (filled.token? lexer.draft.1).bind _ = _
    rw [drafts.token?_eq idle parts]
    rfl
  have cleared (after : BufferedLexer) (window : after.window = filled.window)
      (pending : after.pending = []) (pieces : after.pieces = []) : after.Idle :=
    idle.clear drafts.passes parts window pending pieces
  have matched : Context.matchBracket filled.brackets lexer.draft.1.lexeme.kind
      lexer.draft.1.range = lexer.plain.bracketsAfter := by
    rw [brackets, drafts.lexeme, drafts.range]
    rfl
  rw [next, finish?, matched, Lexer.next_eq]
  cases failed : lexer.plain.bracketsAfter with
  | error failure =>
    have notWord : reading.lexeme.kind ≠ .unquotedStringLiteral := by
      intro word
      have passed : lexer.plain.bracketsAfter = .ok entered.brackets := by
        show Context.matchBracket _ reading.lexeme.kind _ = _
        rw [word]
        rfl
      rw [failed] at passed
      cases passed
    refine ⟨_, rfl, ?_, drafts.passes.bag, cleared _ rfl rfl rfl⟩
    show Lexer.mk filled.window.rest filled.window.position filled.context = _
    rw [rest, position, drafts.context_eq notWord]
    rfl
  | ok brackets =>
    obtain ⟨after, noted, context, window, bag, pending, pieces⟩ :=
      @afterToken?_eq { filled with pieces := [], pending := [], brackets := brackets }
        { entered with brackets := brackets } reading rfl
        (congrArg Context.atStatementStart drafts.context) drafts.words
    refine ⟨after, ?_, ?_, bag.trans drafts.passes.bag, cleared _ window pending pieces⟩
    · show Option.bind (BufferedLexer.afterToken? _ _) _ = _
      rw [noted, drafts.position]
      rfl
    · show Lexer.mk after.window.rest after.window.position after.context = _
      rw [window, context, rest, position]
      rfl

private theorem next?_isSome {lexer : BufferedLexer} (idle : lexer.Idle) :
    lexer.next?.isSome = true := by
  obtain ⟨after, call, -⟩ := next?_eq idle
  rw [call]
  rfl

private theorem idle_of_next? {lexer after : BufferedLexer} {result : Except Failure PlacedToken}
    (idle : lexer.Idle) (call : lexer.next? = some (result, after)) : after.Idle := by
  obtain ⟨other, found, -, -, idle⟩ := next?_eq idle
  cases call.symm.trans found
  exact idle

private theorem start_idle (text : List Char) : (start text).Idle := ⟨⟨[], rfl, rfl⟩, rfl, rfl⟩

end BufferedLexer

/-- A buffered lexer between two calls. -/
structure IdleLexer extends BufferedLexer where
  idle : toBufferedLexer.Idle

namespace IdleLexer

def start (text : List Char) : IdleLexer := ⟨.start text, BufferedLexer.start_idle text⟩

def next (lexer : IdleLexer) : Except Failure PlacedToken × IdleLexer :=
  let call := lexer.next?.get (BufferedLexer.next?_isSome lexer.idle)
  (call.1, ⟨call.2, BufferedLexer.idle_of_next? lexer.idle (Option.some_get _).symm⟩)

private theorem next_eq (lexer : IdleLexer) : lexer.next.1 = lexer.plain.next.1 ∧
    lexer.next.2.plain = lexer.plain.next.2 ∧
      lexer.next.2.bag = lexer.bag ++ lexer.plain.reading.found lexer.window.offset := by
  obtain ⟨after, call, plain, bag, -⟩ := BufferedLexer.next?_eq lexer.idle
  have got : lexer.next?.get (BufferedLexer.next?_isSome lexer.idle) =
      (lexer.plain.next.1, after) := Option.get_of_eq_some _ call
  exact ⟨congrArg Prod.fst got, (congrArg (fun call => call.2.plain) got).trans plain,
    (congrArg (fun call => call.2.bag) got).trans bag⟩

def steps (lexer : IdleLexer) : Nat → List (Except Failure PlacedToken)
  | 0 => []
  | count + 1 =>
    let (result, after) := lexer.next
    result :: after.steps count

theorem steps_eq (lexer : IdleLexer) (count : Nat) :
    lexer.steps count = lexer.plain.steps count := by
  induction count generalizing lexer with
  | zero => rfl
  | succ count ih =>
    obtain ⟨result, plain, -⟩ := lexer.next_eq
    show lexer.next.1 :: lexer.next.2.steps count = _
    rw [ih, result, plain]
    rfl

/-- All tokens of the text, and the bag after them. -/
def tokens (lexer : IdleLexer) : Except Failure Lexed :=
  match _h : lexer.next with
  | (.error failure, _) => .error failure
  | (.ok placed, after) =>
    if _end : placed.kind = .eof then .ok ⟨⟨[], placed⟩, after.bag⟩
    else after.tokens.map (·.push placed)
termination_by lexer.window.rest.length
decreasing_by
  obtain ⟨result, plain, -⟩ := lexer.next_eq
  rw [_h] at result plain
  have shorter := Lexer.next_length_lt result.symm _end
  rwa [← plain] at shorter

private theorem tokens_eq (lexer : IdleLexer) : lexer.tokens = lexer.plain.tokens.map fun stream =>
    ⟨stream, lexer.bag ++ stream.diagnostics⟩ := by
  fun_induction tokens lexer with
  | case1 lexer failure after call =>
    obtain ⟨result, -⟩ := lexer.next_eq
    rw [call] at result
    rw [Lexer.tokens_of_error result.symm]
    rfl
  | case2 lexer placed after call isEnd =>
    obtain ⟨result, -, bag⟩ := lexer.next_eq
    rw [call] at result bag
    rw [Lexer.tokens_of_ok result.symm, if_pos isEnd, bag]
    have found : placed.diagnostics = lexer.plain.reading.found lexer.window.offset :=
      (Lexer.diagnostics_eq_found result.symm).1
    simp [Except.map, TokenStream.diagnostics, TokenStream.toList, found]
  | case3 lexer placed after call notEnd ih =>
    obtain ⟨result, plain, bag⟩ := lexer.next_eq
    rw [call] at result plain bag
    rw [Lexer.tokens_of_ok result.symm, if_neg notEnd, ih, bag, plain]
    have found : placed.diagnostics = lexer.plain.reading.found lexer.window.offset :=
      (Lexer.diagnostics_eq_found result.symm).1
    cases lexer.plain.next.2.tokens with
    | error failure => rfl
    | ok stream =>
      simp [Except.map, Lexed.push, TokenStream.push, TokenStream.diagnostics, TokenStream.toList,
        found]

end IdleLexer

/-- Cuts a text into tokens and gathers their problems. -/
def lex (text : List Char) : Except Failure Lexed := (IdleLexer.start text).tokens

theorem lex_eq (text : List Char) :
    lex text = (tokenize text).map fun stream => ⟨stream, stream.diagnostics⟩ :=
  (IdleLexer.start text).tokens_eq

end MatrixScript
