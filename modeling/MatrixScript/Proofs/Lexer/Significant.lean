import MatrixScript.Proofs.Lexer.Command

/-!
How the significant part of a token is read off a text.

`PlacedToken.ReadOff` says where the lexeme of a token stands in the text and what the token takes
from it. Every token but a word of a command is read as `Lexeme.read` reads the text from there on,
and before the end of the text nothing is wrong with a token but what is wrong with its lexeme.
-/

set_option autoImplicit false

namespace MatrixScript

/-- A token has a lexeme as its significant part, and in a text `after` follows on that. -/
structure PlacedToken.ReadOff (placed : PlacedToken) (text : List Char) (lexeme : Lexeme)
    (after : List Char) : Prop where
  stands : ∃ front, front ++ (lexeme.text ++ after) = text ∧
    Text.byteSize front = placed.range.start
  stop : placed.range.stop = placed.range.start + Text.byteSize lexeme.text
  kind : placed.kind = lexeme.kind
  trimmed : placed.token.trimmed? = some lexeme.text
  value : placed.token.value = lexeme.value
  /-- Nothing is wrong with the trivia of a token before the end of the text. -/
  diagnostics : placed.kind ≠ .eof →
    placed.diagnostics = lexeme.problem.toList.map (·.shift placed.range.start)

private theorem Diagnostic.shift_shift (diagnostic : Diagnostic) (first second : Nat) :
    (diagnostic.shift first).shift second = diagnostic.shift (second + first) := by
  simp only [shift, Range.shift, Diagnostic.mk.injEq, Range.mk.injEq, true_and]
  omega

namespace Lexer

variable {text : List Char} {past : List PlacedToken} {lexer : Lexer}

private theorem clean_trivia (notEnd : lexer.pending.kind ≠ .eof) :
    (∀ fragment ∈ lexer.reading.leading, fragment.problem = none) ∧
      ∀ fragment ∈ lexer.reading.trailing, fragment.problem = none := by
  constructor
  · refine (Fragment.run_problems false lexer.context.atLineStart lexer.rest).2 fun nothing => ?_
    exact notEnd ((Context.read_kind_eq_eof_iff _ _).mpr nothing)
  · obtain ⟨more, -, trailing⟩ := lexer.exists_more
    rw [trailing]
    exact Fragment.run_trailing_problem rfl rfl

private theorem pending_diagnostics (notEnd : lexer.pending.kind ≠ .eof) :
    lexer.pending.diagnostics =
      lexer.reading.lexeme.problem.toList.map (·.shift lexer.pending.range.start) := by
  obtain ⟨before, after⟩ := clean_trivia notEnd
  have start : lexer.pending.range.start = lexer.position.offset +
      Text.byteSize (Fragment.textOf lexer.reading.leading) :=
    congrArg Range.start (lexer.reading.token_span lexer.position.offset)
  rw [start]
  simp only [PlacedToken.diagnostics, pending, PlacedToken.fullStart, Reading.token,
    Reading.diagnostics, Reading.found, Fragment.diagnostics_of_clean _ before,
    Fragment.diagnostics_of_clean _ after, List.nil_append, List.append_nil, List.map_map,
    Nat.zero_add]
  exact List.map_congr_left fun diagnostic _ => diagnostic.shift_shift _ _

/-- A token that is no word of a command is read off the text where its significant part starts. -/
theorem Yielded.readOff (run : Yielded text past lexer)
    (notBare : lexer.pending.kind ≠ .unquotedStringLiteral) :
    ∃ after, lexer.pending.ReadOff text lexer.reading.lexeme after ∧
      Lexeme.read lexer.context.touchesOperand (lexer.reading.lexeme.text ++ after) =
        (lexer.reading.lexeme, after) := by
  let ahead := lexer.context.significant lexer.rest
  have reads : lexer.context.readLexeme ahead =
      Lexeme.read lexer.context.touchesOperand ahead := by
    rw [pending_kind, run.settled.lexeme, ne_eq, Context.readLexeme_unquoted_iff] at notBare
    rw [Context.readLexeme, if_neg notBare]
  have lexeme : lexer.reading.lexeme = (lexer.context.readLexeme ahead).1 := run.settled.lexeme
  have parts : lexer.reading.lexeme.text ++ (lexer.context.readLexeme ahead).2 = ahead := by
    rw [lexeme]
    exact lexer.context.readLexeme_append ahead
  have span := lexer.reading.token_span lexer.position.offset
  refine ⟨(lexer.context.readLexeme ahead).2, ?_, ?_⟩
  · obtain ⟨whole, offset⟩ := run.front
    have leading : Fragment.textOf lexer.reading.leading ++ ahead = lexer.rest :=
      Fragment.leading_append _ _
    constructor
    case stands =>
      refine ⟨past.flatMap (·.token.text) ++ Fragment.textOf lexer.reading.leading, ?_, ?_⟩
      · rw [parts, List.append_assoc, leading, whole]
      · rw [Text.byteSize_append, ← offset]
        exact (congrArg Range.start span).symm
    case stop =>
      rw [show lexer.pending.range = _ from span]
      rfl
    case kind => rfl
    case trimmed => exact lexer.reading.token_trimmed?
    case value => rfl
    case diagnostics => exact pending_diagnostics
  · rw [parts, ← reads, lexeme]

end Lexer

/-- How a token of a text is read that is no word of a command. -/
theorem exists_readOff {text : List Char} {stream : TokenStream}
    (lexed : tokenize text = .ok stream) {placed : PlacedToken} (member : placed ∈ stream.toList)
    (notBare : placed.kind ≠ .unquotedStringLiteral) :
    ∃ touchesOperand lexeme after, placed.ReadOff text lexeme after ∧
      Lexeme.read touchesOperand (lexeme.text ++ after) = (lexeme, after) := by
  obtain ⟨before, later, split⟩ := List.append_of_mem member
  obtain ⟨lexer, run, yields⟩ := exists_yielded lexed split
  obtain rfl := Lexer.eq_pending yields
  obtain ⟨after, readOff, reads⟩ := run.readOff notBare
  exact ⟨_, _, after, readOff, reads⟩

end MatrixScript
