import MatrixScript.Proofs.Lexer.Significant

/-!
When a single quote is a transpose.

It is one just where it stands right behind an operand, a name or a closing bracket; everywhere else
it opens a string. The lexer looks at the token before alone, at its kind and at whether trivia
follows on it: within a line all trivia between two tokens belongs to the first of them.
-/

set_option autoImplicit false

namespace MatrixScript

/-- A token stands right behind a name or a closing bracket. -/
def StandsOnOperand (past : List PlacedToken) (placed : PlacedToken) : Prop :=
  ∃ last ∈ past.getLast?, (last.kind = .identifier ∨ last.kind.isClosing = true) ∧
    last.range.stop = placed.range.start

private theorem Fragment.total_run_eq_zero {trailing atLineStart : Bool} {text : List Char} :
    Piece.total (pieces (run trailing atLineStart text).1) = 0 ↔
      pieces (run trailing atLineStart text).1 = [] := by
  cases found : (run trailing atLineStart text).1 with
  | nil => exact iff_of_true rfl rfl
  | cons fragment back =>
    have split : (run trailing atLineStart text).1 = [] ++ fragment :: back := found
    obtain ⟨reads, -⟩ := next?_of_run split
    obtain ⟨c, rest, visible⟩ := List.exists_cons_of_ne_nil (next?_append reads).2
    have positive := c.utf8Size_pos
    simp only [pieces, List.map_cons, Piece.total, visible, Text.byteSize_cons, reduceCtorEq,
      iff_false]
    omega

private theorem Context.touchesOperand_afterToken_iff (context : Context) (reading : Reading) :
    (context.afterToken reading).touchesOperand = true ↔
      (reading.lexeme.kind = .identifier ∨ reading.lexeme.kind.isClosing = true) ∧
        reading.trailing = [] := by
  have same : (context.afterToken reading).touchesOperand =
      ((reading.lexeme.kind == .identifier || reading.lexeme.kind.isClosing) &&
        reading.trailing.isEmpty) := by
    simp only [afterToken]
    split <;> rfl
  simp [same]

namespace Lexer

variable {text : List Char} {past : List PlacedToken} {lexer : Lexer} {last : PlacedToken}

private theorem Yielded.touchesOperand_iff (run : Yielded text past lexer) :
    lexer.context.touchesOperand = true ↔ ∃ last ∈ past.getLast?,
      (last.kind = .identifier ∨ last.kind.isClosing = true) ∧ last.token.trailing = [] := by
  cases run with
  | start => exact iff_of_false Bool.false_ne_true (by simp)
  | @next past lexer placed before yields =>
    obtain ⟨brackets, -, same⟩ := next_context yields
    obtain rfl := eq_pending yields
    have bare : lexer.pending.token.trailing = [] ↔ lexer.reading.trailing = [] :=
      List.map_eq_nil_iff
    rw [same, Context.touchesOperand_afterToken_iff, List.getLast?_concat, ← bare]
    simp only [Option.mem_def, Option.some.injEq, exists_eq_left']
    exact Iff.rfl

private theorem Yielded.touch_iff (run : Yielded text (past ++ [last]) lexer) :
    last.range.stop = lexer.pending.range.start ↔
      last.token.trailing = [] ∧ lexer.pending.token.leading = [] := by
  have split : Yielded text (past ++ last :: []) lexer := run
  obtain ⟨source, before, yields⟩ := split.exists_of_append
  have place := run.front.2.trans (before.byteSize_concat yields)
  obtain rfl := eq_pending yields
  obtain ⟨more, -, trailing⟩ := source.exists_more
  have after : source.pending.token.trailingWidth = 0 ↔ source.pending.token.trailing = [] := by
    show Piece.total (Fragment.pieces source.reading.trailing) = 0 ↔
      Fragment.pieces source.reading.trailing = []
    rw [trailing]
    exact Fragment.total_run_eq_zero
  have front : lexer.pending.token.leadingWidth = 0 ↔ lexer.pending.token.leading = [] :=
    Fragment.total_run_eq_zero
  have fits : source.pending.token.Fits := source.reading.token_fits
  have stop : source.pending.range.stop = source.pending.fullStart +
      source.pending.token.width - source.pending.token.trailingWidth := rfl
  have start : lexer.pending.range.start =
      lexer.position.offset + lexer.pending.token.leadingWidth := rfl
  have full : source.pending.fullRange.stop =
      source.pending.fullStart + source.pending.token.width := rfl
  unfold Token.Fits at fits
  rw [← after, ← front, stop, start]
  omega

private theorem Yielded.standsOnOperand_iff (run : Yielded text past lexer) :
    StandsOnOperand past lexer.pending ↔ lexer.context.touchesOperand = true := by
  rw [run.touchesOperand_iff]
  refine exists_congr fun last => and_congr_right fun isLast => and_congr_right fun _ => ?_
  obtain ⟨front, rfl⟩ := List.getLast?_eq_some_iff.mp isLast
  rw [run.touch_iff, and_iff_left_iff_imp]
  intro bare
  -- Trivia in front of a token stands at the start of a line, and this one is not there.
  apply Classical.byContradiction
  intro some
  have endsLine := run.attached.leading some last isLast
  simp [Token.endsLine, bare] at endsLine

end Lexer

private theorem Lexeme.read_quote (touchesOperand : Bool) (rest : List Char) :
    read touchesOperand ('\'' :: rest) =
      if touchesOperand then (⟨.apostrophe, ['\''], none, none⟩, rest)
      else string '\'' .stringLiteral rest := by
  cases touchesOperand <;> rfl

/-- Of the tokens that start with a single quote, words of commands aside, those that stand right
behind a name or a closing bracket are transposes, of one character and without a value, and all
others are strings. A token stands right behind the one before it where no trivia of either is in
between. -/
theorem tokenize_quotes {text : List Char} {stream : TokenStream}
    (lexed : tokenize text = .ok stream) :
    ∀ before quote later, stream.toList = before ++ quote :: later →
      quote.kind ≠ .unquotedStringLiteral →
      (∃ more, quote.token.trimmed? = some ('\'' :: more)) →
      (quote.kind = .apostrophe ↔ StandsOnOperand before quote) ∧
      (quote.kind = .apostrophe →
        quote.token.trimmed? = some ['\''] ∧ quote.token.value = none) ∧
      (¬StandsOnOperand before quote → quote.kind = .stringLiteral) ∧
      ∀ last ∈ before.getLast?, (last.range.stop = quote.range.start ↔
        last.token.trailing = [] ∧ quote.token.leading = []) := by
  rintro before quote later split notBare ⟨more, starts⟩
  obtain ⟨lexer, run, yields⟩ := exists_yielded lexed split
  obtain rfl := Lexer.eq_pending yields
  obtain ⟨after, readOff, reads⟩ := run.readOff notBare
  obtain ⟨rest, ahead⟩ : ∃ rest, lexer.reading.lexeme.text ++ after = '\'' :: rest := by
    rw [readOff.trimmed, Option.some.injEq] at starts
    exact ⟨more ++ after, by rw [starts, List.cons_append]⟩
  rw [ahead, Lexeme.read_quote] at reads
  have lexeme : lexer.reading.lexeme = (if lexer.context.touchesOperand then
      (⟨.apostrophe, ['\''], none, none⟩, rest) else
      Lexeme.string '\'' .stringLiteral rest).1 :=
    (congrArg Prod.fst reads).symm
  rw [readOff.trimmed, readOff.value, readOff.kind, run.standsOnOperand_iff, lexeme]
  refine ⟨?_, ?_, ?_, ?_⟩
  · cases lexer.context.touchesOperand <;> simp [Lexeme.string]
  · cases lexer.context.touchesOperand <;> simp [Lexeme.string]
  · cases lexer.context.touchesOperand <;> simp [Lexeme.string]
  · intro last isLast
    obtain ⟨front, rfl⟩ := List.getLast?_eq_some_iff.mp isLast
    exact run.touch_iff

/-- Transposes of a name and of a matrix, and strings behind a space, a line break and a comment. -/
theorem tokenize_quotes_apart :
    ∃ stream, tokenize "x' + [x 'y']'\n'z' % x\n'w'".toList = .ok stream ∧
      (stream.toList.filter fun placed => placed.kind == .apostrophe).map (·.range) =
        [⟨1, 2⟩, ⟨12, 13⟩] ∧
      (stream.toList.filter fun placed => placed.kind == .stringLiteral).map (·.range) =
        [⟨8, 11⟩, ⟨14, 17⟩, ⟨22, 25⟩] ∧
      ∀ before quote later, stream.toList = before ++ quote :: later →
        quote.kind ≠ .unquotedStringLiteral →
        (∃ more, quote.token.trimmed? = some ('\'' :: more)) →
        (quote.kind = .apostrophe ↔ StandsOnOperand before quote) := by
  have ok : (tokenize "x' + [x 'y']'\n'z' % x\n'w'".toList).toOption.any (fun stream =>
      (stream.toList.filter fun placed => placed.kind == .apostrophe).map (·.range) ==
        [⟨1, 2⟩, ⟨12, 13⟩] &&
      (stream.toList.filter fun placed => placed.kind == .stringLiteral).map (·.range) ==
        [⟨8, 11⟩, ⟨14, 17⟩, ⟨22, 25⟩]) = true := by decide +kernel
  obtain ⟨stream, lexed, found⟩ := exists_ok_of_any ok
  rw [Bool.and_eq_true, beq_iff_eq, beq_iff_eq] at found
  refine ⟨stream, lexed, found.1, found.2, ?_⟩
  intro before quote later split notBare starts
  exact (tokenize_quotes lexed before quote later split notBare starts).1

end MatrixScript
