import MatrixScript.Fragment
import MatrixScript.Numeral

/-!
The significant part of a token: words, numbers, strings, operators, and the bare words of a
command.

`Lexeme.read` and `Lexeme.readBareWord` each take one lexeme off the front of a text. They only part
the text, and at the end of the text alone they take nothing.
-/

set_option autoImplicit false

namespace MatrixScript

/-- The significant part of a token. Its problem counts from its own start. -/
structure Lexeme where
  kind : Kind
  text : List Char
  value : Option Value := none
  problem : Option Diagnostic := none
  deriving DecidableEq, Repr

namespace Lexeme

def isWordChar (c : Char) : Bool := c.isAlphanum || c == '_'

/-- Text up to a closing quote, in which a doubled quote stands for itself: the text with the
closing quote, what it says, whether the quote was found, and the rest. The text ends with its
line. -/
structure Quotation where
  text : List Char
  content : List Char
  closed : Bool
  rest : List Char
  deriving DecidableEq, Repr

namespace Quotation

def push (quotation : Quotation) (text content : List Char) : Quotation :=
  { quotation with text := text ++ quotation.text, content := content ++ quotation.content }

/-- The quotation up to `quote`, from after the opening quote. -/
def read (quote : Char) : List Char → Quotation
  | [] => ⟨[], [], false, []⟩
  | [c] =>
    if c = quote then ⟨[c], [], true, []⟩
    else if Fragment.isLineEnd c then ⟨[], [], false, [c]⟩
    else ⟨[c], [c], false, []⟩
  | c :: d :: rest =>
    if c = quote then
      if d = quote then (read quote rest).push [c, d] [c] else ⟨[c], [], true, d :: rest⟩
    else if Fragment.isLineEnd c then ⟨[], [], false, c :: d :: rest⟩
    else (read quote (d :: rest)).push [c] [c]

theorem read_append (quote : Char) (text : List Char) :
    (read quote text).text ++ (read quote text).rest = text := by
  fun_induction read quote text <;> simp_all [push]

end Quotation

/-- A string from its opening `quote` on; `text` stands after that quote. -/
def string (quote : Char) (kind : Kind) (text : List Char) : Lexeme × List Char :=
  let quotation := Quotation.read quote text
  let full := quote :: quotation.text
  let problem := if quotation.closed then none
    else some ⟨.unterminatedStringLiteral, ⟨0, Text.byteSize full⟩⟩
  (⟨kind, full, some (.text quotation.content), problem⟩, quotation.rest)

/-- A number that was scanned. An exponent without digits is a problem of the character after it. -/
def ofScan (scan : Numeral.Scan) : Lexeme where
  kind := .numberLiteral
  text := scan.taken ++ scan.ending.suffix
  value := (Numeral.parse? scan.taken).map fun x =>
    match scan.ending with
    | .imaginary _ => .imaginary x
    | .plain | .lacking => .number x
  problem :=
    match scan.ending with
    | .lacking => some ⟨.unexpectedCharacterInNumber (scan.rest.headD '\x00'),
        Range.ofLength (Text.byteSize scan.taken) (Text.byteSize (scan.rest.take 1))⟩
    | .plain | .imaginary _ => none

@[simp]
theorem ofScan_kind (scan : Numeral.Scan) : (ofScan scan).kind = .numberLiteral := rfl

theorem eq_of_mem_ofScan_problem {scan : Numeral.Scan} {diagnostic : Diagnostic}
    (found : diagnostic ∈ (ofScan scan).problem) :
    (ofScan scan).text = scan.taken ∧
      diagnostic = ⟨.unexpectedCharacterInNumber (scan.rest.headD '\x00'),
        Range.ofLength (Text.byteSize scan.taken) (Text.byteSize (scan.rest.take 1))⟩ := by
  obtain ⟨taken, ending, rest⟩ := scan
  cases ending with
  | plain => cases found
  | imaginary suffix => cases found
  | lacking => exact ⟨List.append_nil taken, (Option.some.inj found).symm⟩

def number (text : List Char) : Lexeme × List Char :=
  let scan := Numeral.run .start text
  (ofScan scan, scan.rest)

def pairOperator? : Char → Char → Option Kind
  | '=', '=' => some .equalsEquals
  | '~', '=' => some .tildeEquals
  | '<', '=' => some .lessOrEquals
  | '>', '=' => some .greaterOrEquals
  | '&', '&' => some .ampersandAmpersand
  | '|', '|' => some .pipePipe
  | '.', '*' => some .dotStar
  | '.', '/' => some .dotSlash
  | '.', '\\' => some .dotBackslash
  | '.', '^' => some .dotCaret
  | '.', '\'' => some .dotApostrophe
  | _, _ => none

/-- The operators, separators and brackets of one character. -/
def singleOperator? : Char → Option Kind
  | '=' => some .equals
  | '|' => some .pipe
  | '&' => some .ampersand
  | '<' => some .less
  | '>' => some .greater
  | ':' => some .colon
  | '+' => some .plus
  | '-' => some .minus
  | '*' => some .star
  | '/' => some .slash
  | '\\' => some .backslash
  | '^' => some .caret
  | '~' => some .tilde
  | '\'' => some .apostrophe
  | '@' => some .at
  | '.' => some .dot
  | ',' => some .comma
  | ';' => some .semicolon
  | '(' => some .openParenthesis
  | ')' => some .closeParenthesis
  | '[' => some .openSquareBracket
  | ']' => some .closeSquareBracket
  | '{' => some .openBrace
  | '}' => some .closeBrace
  | _ => none

/-- The tables have the kinds under their spellings, and nothing else. -/
theorem pairOperator?_eq_some_iff {c d : Char} {kind : Kind} :
    pairOperator? c d = some kind ↔ kind.fixedText? = some [c, d] := by
  constructor
  · unfold pairOperator?
    split <;> rintro ⟨⟩ <;> rfl
  · intro spelled
    cases kind <;> simp only [Kind.fixedText?, reduceCtorEq, Option.some.injEq, List.cons.injEq,
      and_true, and_false] at spelled
    all_goals obtain ⟨rfl, rfl⟩ := spelled; rfl

theorem singleOperator?_eq_some_iff {c : Char} {kind : Kind} :
    singleOperator? c = some kind ↔ kind.fixedText? = some [c] := by
  constructor
  · unfold singleOperator?
    split <;> rintro ⟨⟩ <;> rfl
  · intro spelled
    cases kind <;> simp only [Kind.fixedText?, reduceCtorEq, Option.some.injEq, List.cons.injEq,
      and_true, and_false] at spelled
    all_goals subst spelled; rfl

/-- The characters of the operators that are two characters long. -/
theorem mem_of_pairOperator? {c d : Char} {kind : Kind} (found : pairOperator? c d = some kind) :
    c ∈ ['.', '=', '~', '<', '>', '&', '|'] ∧
      d ∈ ['\'', '*', '/', '\\', '^', '=', '&', '|'] := by
  unfold pairOperator? at found
  split at found <;> first | decide | cases found

theorem pairOperator?_eq (c d : Char) : pairOperator? c d = Kind.ofFixedText? [c, d] :=
  Option.ext fun _ => pairOperator?_eq_some_iff.trans Kind.ofFixedText?_eq_some_iff.symm

theorem singleOperator?_eq (c : Char) : singleOperator? c = Kind.ofFixedText? [c] :=
  Option.ext fun _ => singleOperator?_eq_some_iff.trans Kind.ofFixedText?_eq_some_iff.symm

/-- A single character: an operator, or a symbol the language does not have. -/
def symbol (c : Char) : Lexeme :=
  match singleOperator? c with
  | some kind => ⟨kind, [c], none, none⟩
  | none => ⟨.badToken, [c], none, some ⟨.unknownSymbol c, ⟨0, c.utf8Size⟩⟩⟩

/-- The operator at the front of a text, of two characters if there is one. -/
def operator : Char → List Char → Lexeme × List Char
  | c, d :: rest =>
    match pairOperator? c d with
    | some kind => (⟨kind, [c, d], none, none⟩, rest)
    | none => (symbol c, d :: rest)
  | c, [] => (symbol c, [])

/-- The lexeme at the front of a text. A single quote is a transpose when it touches an operand, and
opens a string otherwise. -/
def read (touchesOperand : Bool) : List Char → Lexeme × List Char
  | [] => (⟨.eof, [], none, none⟩, [])
  | c :: rest =>
    if c.isAlpha then
      (⟨.identifier, c :: rest.takeWhile isWordChar, none, none⟩, rest.dropWhile isWordChar)
    else if c.isDigit || (c == '.' && rest.head?.any Char.isDigit) then number (c :: rest)
    else if c = '\'' then
      if touchesOperand then (⟨.apostrophe, [c], none, none⟩, rest)
      else string c .stringLiteral rest
    else if c = '"' then string c .doubleQuotedStringLiteral rest
    else operator c rest

theorem number_append (text : List Char) : (number text).1.text ++ (number text).2 = text :=
  (List.append_assoc _ _ _).trans (Numeral.run_append .start text)

private theorem operator_append (c : Char) (rest : List Char) :
    (operator c rest).1.text ++ (operator c rest).2 = c :: rest ∧
      (operator c rest).1.text ≠ [] := by
  have single : (symbol c).text = [c] := by unfold symbol; split <;> rfl
  fun_cases operator c rest <;> simp_all

theorem read_append (touchesOperand : Bool) (text : List Char) :
    (read touchesOperand text).1.text ++ (read touchesOperand text).2 = text := by
  fun_cases read touchesOperand text
  case case1 => rfl
  case case2 => simp [List.takeWhile_append_dropWhile]
  case case3 => exact number_append _
  case case4 => rfl
  case case5 rest _ _ _ => simpa [string] using Quotation.read_append '\'' rest
  case case6 rest _ _ _ => simpa [string] using Quotation.read_append '"' rest
  case case7 c rest _ _ _ _ => exact (operator_append c rest).1

theorem read_text_ne_nil {touchesOperand : Bool} {text : List Char} (h : text ≠ []) :
    (read touchesOperand text).1.text ≠ [] := by
  fun_cases read touchesOperand text
  case case1 => contradiction
  case case2 => simp
  case case3 c rest _ digit =>
    exact List.append_ne_nil_of_left_ne_nil (Numeral.run_taken_ne_nil digit) _
  case case4 => simp
  case case5 => simp [string]
  case case6 => simp [string]
  case case7 c rest _ _ _ _ => exact (operator_append c rest).2

private theorem symbol_kind_ne {kind : Kind} (unspelled : kind.fixedText? = none)
    (good : kind ≠ .badToken) (c : Char) : (symbol c).kind ≠ kind := by
  unfold symbol
  split
  · rename_i found
    rintro rfl
    rw [singleOperator?_eq_some_iff, unspelled] at found
    cases found
  · exact good.symm

/-- An operator is a bad token or of a kind that has a fixed text. -/
theorem operator_kind_ne {kind : Kind} (unspelled : kind.fixedText? = none)
    (good : kind ≠ .badToken) (c : Char) (rest : List Char) : (operator c rest).1.kind ≠ kind := by
  fun_cases operator c rest
  case case1 d rest other found =>
    rintro rfl
    rw [pairOperator?_eq_some_iff, unspelled] at found
    cases found
  case case2 => exact symbol_kind_ne unspelled good c
  case case3 => exact symbol_kind_ne unspelled good c

theorem read_kind_ne_unquoted (touchesOperand : Bool) (text : List Char) :
    (read touchesOperand text).1.kind ≠ .unquotedStringLiteral := by
  fun_cases read touchesOperand text
  case case1 => simp
  case case2 => simp
  case case3 => simp [number]
  case case4 => simp
  case case5 => simp [string]
  case case6 => simp [string]
  case case7 c rest _ _ _ _ => exact operator_kind_ne rfl (by decide) c rest

def endsBareWord (c : Char) : Bool :=
  Fragment.isHorizontal c || Fragment.isLineEnd c || c == ';' || c == ','

/-- A bare word: its text, what it says, and the rest. Single quotes group characters and are not
part of what it says, except that a doubled one inside a group stands for itself. -/
def bareWord : (grouped : Bool) → List Char → List Char × List Char × List Char
  | _, [] => ([], [], [])
  | true, '\'' :: '\'' :: rest =>
    let (text, content, after) := bareWord true rest
    ('\'' :: '\'' :: text, '\'' :: content, after)
  | grouped, c :: rest =>
    if (if grouped then Fragment.isLineEnd c else endsBareWord c) then ([], [], c :: rest)
    else if c = '\'' then
      let (text, content, after) := bareWord (!grouped) rest
      (c :: text, content, after)
    else
      let (text, content, after) := bareWord grouped rest
      (c :: text, c :: content, after)

def readBareWord (text : List Char) : Lexeme × List Char :=
  let (word, content, rest) := bareWord false text
  (⟨.unquotedStringLiteral, word, some (.text content), none⟩, rest)

private theorem bareWord_append (grouped : Bool) (text : List Char) :
    (bareWord grouped text).1 ++ (bareWord grouped text).2.2 = text := by
  fun_induction bareWord grouped text <;> simp_all

theorem readBareWord_append (text : List Char) :
    (readBareWord text).1.text ++ (readBareWord text).2 = text :=
  bareWord_append false text

theorem readBareWord_text_ne_nil {c : Char} {rest : List Char} (h : endsBareWord c = false) :
    (readBareWord (c :: rest)).1.text ≠ [] := by
  simp only [readBareWord, bareWord, h, Bool.false_eq_true, if_false]
  split <;> simp

/-- The characters of a binary operator at the front of a text. -/
def binaryOperatorLength? : List Char → Option Nat
  | c :: rest =>
    let pair := rest.head?.bind fun d => pairOperator? c d
    if pair.any (· != .dotApostrophe) then some 2
    else if c ∈ ['+', '-', '*', '/', '\\', '^', '<', '>', '&', '|', ':'] then some 1
    else none
  | [] => none

/-- Whether the text after a name and white space reads as words of a command rather than as the
rest of an expression. -/
def startsBareWord (text : List Char) : Bool :=
  match text with
  | [] => false
  | c :: _ =>
    if c ∈ ['\n', '\r', ';', ',', '=', '(', '%'] then false
    else
      match binaryOperatorLength? text with
      | some length => (text[length]?).any fun next => !Text.isBlank next && next != '\x00'
      | none => true

end Lexeme

end MatrixScript
