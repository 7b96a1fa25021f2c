import MatrixScript.Proofs.Lexer.Listing
import MatrixScript.Proofs.Lexer.Significant

/-!
What a string says and how it is written.

Between two quotes a quote is doubled. The reader tells a doubled quote from a closing one by the
character after it, and without a closing quote a string ends with its line.
-/

set_option autoImplicit false

namespace MatrixScript

def Lexeme.token (lexeme : Lexeme) : Token where
  kind := lexeme.kind
  text := lexeme.text
  value := lexeme.value

/-- A text of one lexeme alone, no bracket, is cut into that lexeme and the end of the text. -/
theorem Lexeme.Detached.tokenize {lexeme : Lexeme} (detached : lexeme.Detached)
    (unopened : lexeme.kind.isOpening = false) (unclosed : lexeme.kind.isClosing = false) :
    ∃ ending, tokenize lexeme.text =
      .ok ⟨[⟨lexeme.token, Position.start⟩], ⟨Token.endOfText, ending⟩⟩ := by
  let initial := Lexer.start lexeme.text
  obtain ⟨notEnd, -⟩ := detached.kind_ne
  have absent := detached.absent [] Text.breaks_nil
  have alone := detached.read [] Text.breaks_nil
  rw [List.append_nil] at absent alone
  have leading : Fragment.leading true lexeme.text = ([], lexeme.text) :=
    Fragment.run_of_none (absent true)
  have read : initial.context.read initial.rest = ⟨[], lexeme, [], []⟩ := by
    have significant : (Context.afterLeading {} []).readLexeme lexeme.text = (lexeme, []) := alone
    have trailing : Fragment.trailing [] = ([], []) := Fragment.run_of_none rfl
    show Context.read {} lexeme.text = _
    simp only [Context.read, leading, significant, trailing]
  have token : Reading.token ⟨[], lexeme, [], []⟩ = lexeme.token := by
    simp [Reading.token, Reading.text, Reading.diagnostics, Reading.found, Fragment.textOf,
      Fragment.pieces, Fragment.diagnostics, detached.sound, Lexeme.token]
  have kind : (PlacedToken.mk lexeme.token Position.start).kind = lexeme.kind := rfl
  have next : initial.next.1 = .ok ⟨lexeme.token, Position.start⟩ ∧
      initial.next.2.rest = [] ∧ initial.next.2.context.brackets = [] := by
    have entered : initial.context.afterLeading [] = {} := rfl
    have start : initial.position = Position.start := rfl
    simp [Lexer.next, read, token, entered, start, kind, Context.matchBracket, unopened, unclosed,
      notEnd, Context.brackets_afterToken]
  obtain ⟨yields, done, closed⟩ := next
  refine ⟨initial.next.2.position, ?_⟩
  rw [MatrixScript.tokenize, Lexer.tokens_of_ok yields, if_neg (by rwa [kind]),
    Lexer.tokens_of_done done closed]
  rfl

namespace Lexeme

/-- What a quotation takes is its content with the quotes doubled, and either the quote that closes
it or all that is left of the line. -/
structure Quotation.IsRead (quote : Char) (quotation : Quotation) : Prop where
  inLine : ∀ c ∈ quotation.content, Fragment.isLineEnd c = false
  spelled : quotation.text =
    doubled quote quotation.content ++ if quotation.closed then [quote] else []
  stops : quotation.closed = false → ∀ c ∈ quotation.rest.head?, Fragment.isLineEnd c = true

private theorem Quotation.IsRead.push {quote c : Char} {quotation : Quotation}
    (isRead : quotation.IsRead quote) (inside : Fragment.isLineEnd c = false) :
    (quotation.push (doubled quote [c]) [c]).IsRead quote where
  inLine := by
    intro d member
    rcases List.mem_cons.mp member with rfl | later
    · exact inside
    · exact isRead.inLine d later
  spelled := by
    simp only [Quotation.push, isRead.spelled, doubled, List.flatMap_cons, List.flatMap_nil,
      List.append_nil, List.flatMap_append, List.append_assoc]
  stops := isRead.stops

private theorem Quotation.read_isRead {quote : Char} (inLine : Fragment.isLineEnd quote = false)
    (text : List Char) : (read quote text).IsRead quote := by
  fun_induction read quote text
  case case1 => exact ⟨by simp, rfl, by simp⟩
  case case2 => exact ⟨by simp, rfl, by simp⟩
  case case3 c other lineEnd => exact ⟨by simp, rfl, by simpa using lineEnd⟩
  case case4 c other inside =>
    have single : doubled quote [c] = [c] := by simp [doubled, other]
    have last : IsRead quote ⟨[], [], false, []⟩ := ⟨by simp, rfl, by simp⟩
    have pushed := last.push (c := c) (by simpa using inside)
    rwa [single] at pushed
  case case5 rest ih =>
    have pair : doubled quote [quote] = [quote, quote] := by simp [doubled]
    have pushed := ih.push inLine
    rwa [pair] at pushed
  case case6 => exact ⟨by simp, rfl, by simp⟩
  case case7 c d rest other lineEnd => exact ⟨by simp, rfl, by simpa using lineEnd⟩
  case case8 c d rest other inside ih =>
    have single : doubled quote [c] = [c] := by simp [doubled, other]
    have pushed := ih.push (c := c) (by simpa using inside)
    rwa [single] at pushed

private theorem read_eq_string {mark : QuoteMark} {touchesOperand : Bool} {text : List Char}
    (kind : (read touchesOperand text).1.kind = mark.kind) :
    ∃ rest, text = mark.char :: rest ∧
      read touchesOperand text = string mark.char mark.kind rest := by
  have spelled : mark.kind.fixedText? = none := by cases mark <;> rfl
  have good : mark.kind ≠ .badToken := by cases mark <;> decide
  revert kind
  fun_cases read touchesOperand text
  case case1 => cases mark <;> exact Kind.noConfusion
  case case2 => cases mark <;> exact Kind.noConfusion
  case case3 => cases mark <;> exact Kind.noConfusion
  case case4 => cases mark <;> exact Kind.noConfusion
  case case5 rest _ _ _ =>
    cases mark with
    | single => exact fun _ => ⟨rest, rfl, rfl⟩
    | double => exact Kind.noConfusion
  case case6 rest _ _ _ =>
    cases mark with
    | single => exact Kind.noConfusion
    | double => exact fun _ => ⟨rest, rfl, rfl⟩
  case case7 c rest _ _ _ _ => exact fun kind => absurd kind (operator_kind_ne spelled good c rest)

end Lexeme

private theorem exists_quotation {mark : QuoteMark} {text : List Char} {stream : TokenStream}
    (lexed : tokenize text = .ok stream) {placed : PlacedToken} (member : placed ∈ stream.toList)
    (kind : placed.kind = mark.kind) :
    ∃ (quotation : Lexeme.Quotation) (front : List Char),
      quotation.IsRead mark.char ∧
      placed.token.value = some (.text quotation.content) ∧
      placed.token.trimmed? = some (mark.char :: quotation.text) ∧
      placed.diagnostics = (if quotation.closed then [] else
        [⟨.unterminatedStringLiteral, placed.range⟩]) ∧
      front ++ quotation.rest = text ∧ Text.byteSize front = placed.range.stop := by
  have inner : placed.kind ≠ .unquotedStringLiteral ∧ placed.kind ≠ .eof := by
    rw [kind]
    cases mark <;> decide
  have inLine : Fragment.isLineEnd mark.char = false := by cases mark <;> rfl
  obtain ⟨touchesOperand, lexeme, after, readOff, reads⟩ :=
    exists_readOff lexed member inner.1
  obtain ⟨rest, -, string⟩ := @Lexeme.read_eq_string mark touchesOperand (lexeme.text ++ after)
    (by rw [reads, ← readOff.kind, kind])
  obtain ⟨rfl, rfl⟩ : lexeme = _ ∧ after = _ := Prod.mk.inj (reads.symm.trans string)
  obtain ⟨front, whole, start⟩ := readOff.stands
  refine ⟨Lexeme.Quotation.read mark.char rest,
    front ++ (mark.char :: (Lexeme.Quotation.read mark.char rest).text),
    Lexeme.Quotation.read_isRead inLine rest, readOff.value, readOff.trimmed, ?_, ?_, ?_⟩
  · rw [readOff.diagnostics inner.2]
    cases closed : (Lexeme.Quotation.read mark.char rest).closed with
    | true => simp
    | false =>
      have range : placed.range = Range.shift
          ⟨0, Text.byteSize (mark.char :: (Lexeme.Quotation.read mark.char rest).text)⟩
          placed.range.start := by
        rw [Range.shift, Nat.zero_add, Nat.add_comm, ← readOff.stop]
      rw [range]
      simp [Diagnostic.shift, Range.shift]
  · rw [List.append_assoc]
    exact whole
  · rw [Text.byteSize_append, start, readOff.stop]

/-- A text in a line is written as a string by doubling its quotes, and is cut into that string
alone, without problems. And each string of a text says what its doubled quotes stand for: it is
closed but at the end of a line, where it is reported. -/
theorem tokenize_strings (mark : QuoteMark) :
    (∀ content : List Char, (∀ c ∈ content, c ≠ '\n' ∧ c ≠ '\r') →
      ∃ ending, tokenize (mark.char :: (Lexeme.doubled mark.char content ++ [mark.char])) =
        .ok ⟨[⟨{ kind := mark.kind
                 text := mark.char :: (Lexeme.doubled mark.char content ++ [mark.char])
                 value := some (.text content) }, Position.start⟩],
          ⟨Token.endOfText, ending⟩⟩) ∧
    ∀ text stream, tokenize text = .ok stream →
      ∀ placed ∈ stream.toList, placed.kind = mark.kind →
        ∃ content closing front after,
          placed.token.value = some (.text content) ∧
          placed.token.trimmed? =
            some (mark.char :: (Lexeme.doubled mark.char content ++ closing)) ∧
          (closing = [] ∨ closing = [mark.char]) ∧
          (closing = [] ↔ ∃ diagnostic ∈ placed.diagnostics,
            diagnostic.problem = .unterminatedStringLiteral) ∧
          (∀ c ∈ content, c ≠ '\n' ∧ c ≠ '\r') ∧
          front ++ after = text ∧ Text.byteSize front = placed.range.stop ∧
          (closing = [] → ∀ c ∈ after.head?, c = '\n' ∨ c = '\r') := by
  constructor
  · intro content inLine
    have allInside : content.all (!Fragment.isLineEnd ·) = true := by
      simpa [Fragment.isLineEnd] using inLine
    have detached := Lexeme.quoted_detached mark allInside
    exact detached.tokenize (by cases mark <;> rfl) (by cases mark <;> rfl)
  · intro text stream lexed placed member kind
    obtain ⟨quotation, front, isRead, value, spelled, reported, whole, stop⟩ :=
      exists_quotation lexed member kind
    refine ⟨quotation.content, if quotation.closed then [mark.char] else [], front,
      quotation.rest, value, ?_, ?_, ?_, ?_, whole, stop, ?_⟩
    · rw [spelled, ← isRead.spelled]
    · cases quotation.closed <;> simp
    · rw [reported]
      cases quotation.closed <;> simp
    · simpa [Fragment.isLineEnd] using isRead.inLine
    · intro unclosed
      have stops := isRead.stops (by cases closed : quotation.closed <;> simp_all)
      simpa [Fragment.isLineEnd] using stops

/-- Quotes at both ends and in pairs, and a string that its line leaves open behind one that is
closed. -/
theorem tokenize_strings_runs :
    (∃ ending, tokenize "'''%''\x00'''''".toList =
      .ok ⟨[⟨{ kind := .stringLiteral
               text := "'''%''\x00'''''".toList
               value := some (.text "'%'\x00''".toList) }, Position.start⟩],
        ⟨Token.endOfText, ending⟩⟩) ∧
    ∃ stream, tokenize "['a''' 'b''\n]".toList = .ok stream ∧
      (stream.toList.filter (·.kind == .stringLiteral)).map (·.token.value) =
        [some (.text "a'".toList), some (.text "b'".toList)] ∧
      ∀ placed ∈ stream.toList, placed.kind = .stringLiteral →
        ∃ content closing, placed.token.value = some (.text content) ∧
          placed.token.trimmed? = some ('\'' :: (Lexeme.doubled '\'' content ++ closing)) ∧
          (closing = [] ↔ ∃ diagnostic ∈ placed.diagnostics,
            diagnostic.problem = .unterminatedStringLiteral) := by
  constructor
  · have inLine : "'%'\x00''".toList.all (fun c => c != '\n' && c != '\r') = true := by decide
    refine (tokenize_strings .single).1 "'%'\x00''".toList fun c inside => ?_
    simpa using List.all_eq_true.mp inLine c inside
  · have ok : (tokenize "['a''' 'b''\n]".toList).toOption.any (fun stream =>
        (stream.toList.filter (·.kind == .stringLiteral)).map (·.token.value) ==
          [some (.text "a'".toList), some (.text "b'".toList)]) = true := by decide +kernel
    obtain ⟨stream, lexed, values⟩ := exists_ok_of_any ok
    refine ⟨stream, lexed, by simpa using values, ?_⟩
    intro placed member kind
    obtain ⟨content, closing, -, -, value, spelled, -, reported, -⟩ :=
      (tokenize_strings .single).2 _ stream lexed placed member kind
    exact ⟨content, closing, value, spelled, reported⟩

end MatrixScript
