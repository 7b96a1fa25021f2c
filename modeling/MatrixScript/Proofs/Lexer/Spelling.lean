import MatrixScript.Proofs.Lexer.Line
import MatrixScript.Proofs.Lexer.Scanning

/-!
Lexemes that are read off their own text.

A word, a well-formed numeral or an operator that a blank or a semicolon ends is read as itself,
whatever stands before it. `Name`, `Literal` and `Lexeme.fixed` are the lexemes that a program is
written with, and each of them is `Plain`.
-/

set_option autoImplicit false

namespace MatrixScript

def Fragment.Absent (text : List Char) : Prop :=
  ∀ atLineStart, Fragment.next? atLineStart text = none

namespace Lexeme

/-- A lexeme that is read off its own text wherever a break ends it. -/
structure Plain (lexeme : Lexeme) : Prop where
  sound : lexeme.problem = none
  /-- Its text is not taken for trivia. -/
  absent : ∀ rest, Text.Breaks rest → Fragment.Absent (lexeme.text ++ rest)
  read : ∀ touchesOperand rest, Text.Breaks rest →
    Lexeme.read touchesOperand (lexeme.text ++ rest) = (lexeme, rest)

/-- A lexeme that is read off its own text wherever it ends: a word or a number. -/
structure Solid (lexeme : Lexeme) : Prop where
  sound : lexeme.problem = none
  /-- Its text is not taken for trivia. -/
  absent : ∀ rest, Text.Ends rest → Fragment.Absent (lexeme.text ++ rest)
  read : ∀ touchesOperand rest, Text.Ends rest →
    Lexeme.read touchesOperand (lexeme.text ++ rest) = (lexeme, rest)

theorem Solid.plain {lexeme : Lexeme} (solid : lexeme.Solid) : lexeme.Plain where
  sound := solid.sound
  absent rest breaks := solid.absent rest breaks.ends
  read touchesOperand rest breaks := solid.read touchesOperand rest breaks.ends

/-- A letter and then letters, digits and underscores. -/
def isWord : List Char → Bool
  | c :: rest => c.isAlpha && rest.all isWordChar
  | [] => false

def word (text : List Char) : Lexeme := ⟨.identifier, text, none, none⟩

private theorem absent_of_isAlphanum {c : Char} (plain : c.isAlphanum = true) (rest : List Char) :
    Fragment.Absent (c :: rest) := by
  have other {d : Char} (symbol : d.isAlphanum = false) : c ≠ d := by
    rintro rfl
    rw [plain] at symbol
    cases symbol
  have horizontal : Fragment.isHorizontal c = false := by
    simp only [Fragment.isHorizontal, Bool.or_eq_false_iff, beq_eq_false_iff_ne]
    exact ⟨⟨⟨other (by decide), other (by decide)⟩, other (by decide)⟩, other (by decide)⟩
  have feed : c ≠ '\n' := other (by decide)
  have carriage : c ≠ '\r' := other (by decide)
  have percent : c ≠ '%' := other (by decide)
  have point : c ≠ '.' := other (by decide)
  intro atLineStart
  unfold Fragment.next?
  split <;> simp_all

theorem word_solid {text : List Char} (spelled : isWord text = true) : (word text).Solid := by
  cases text with
  | nil => simp [isWord] at spelled
  | cons c rest =>
    simp only [isWord, Bool.and_eq_true] at spelled
    obtain ⟨letter, all⟩ := spelled
    constructor
    case sound => rfl
    case absent =>
      intro back _
      exact absent_of_isAlphanum (by simp [Char.isAlphanum, letter]) (rest ++ back)
    case read =>
      intro touchesOperand back ends
      have span := Text.span_append all fun d found => (ends d found).2
      simp [word, Lexeme.read, letter, span]

theorem word_plain {text : List Char} (spelled : isWord text = true) : (word text).Plain :=
  (word_solid spelled).plain

def ofNumeral (numeral : Numeral) : Lexeme where
  kind := .numberLiteral
  text := numeral.text
  value := numeral.value?.map fun x =>
    if numeral.suffix.isSome then Value.imaginary x else Value.number x

private theorem isAlpha_of_isDigit {c : Char} (digit : c.isDigit = true) : c.isAlpha = false := by
  have upper : '9'.val.toNat < 'A'.val.toNat := by decide
  have lower : '9'.val.toNat < 'a'.val.toNat := by decide
  simp only [Char.isDigit, Bool.and_eq_true, decide_eq_true_eq, ge_iff_le,
    UInt32.le_iff_toNat_le] at digit
  have beforeUpper : ¬ 'A'.val ≤ c.val := by
    rw [UInt32.le_iff_toNat_le]
    omega
  have beforeLower : ¬ 'a'.val ≤ c.val := by
    rw [UInt32.le_iff_toNat_le]
    omega
  have notUpper : c.isUpper = false := decide_eq_false fun range => beforeUpper range.1
  have notLower : c.isLower = false :=
    Bool.and_eq_false_iff.mpr (Or.inl (decide_eq_false beforeLower))
  exact Bool.or_eq_false_iff.mpr ⟨notUpper, notLower⟩

theorem ofNumeral_solid {numeral : Numeral} (known : numeral.isWellFormed = true) :
    (ofNumeral numeral).Solid := by
  have complete := Numeral.not_isIncomplete known
  obtain ⟨c, rest, whole, starts⟩ := Numeral.text_starts known
  constructor
  case sound => rfl
  case absent =>
    intro back _
    show Fragment.Absent (numeral.text ++ back)
    rw [whole]
    rcases starts with digit | ⟨rfl, d, after, rfl, digit⟩
    · exact absent_of_isAlphanum (by simp [Char.isAlphanum, digit]) (rest ++ back)
    · intro atLineStart
      have point : d ≠ '.' := by
        rintro rfl
        revert digit
        decide
      have horizontal : Fragment.isHorizontal '.' = false := rfl
      simp [Fragment.next?, point, horizontal]
  case read =>
    intro touchesOperand back ends
    have found := Numeral.read_text known ends
    show Lexeme.read touchesOperand (numeral.text ++ back) = (ofNumeral numeral, back)
    rw [whole, List.cons_append] at found ⊢
    have front : (c.isDigit || (c == '.' && (rest ++ back).head?.any Char.isDigit)) = true := by
      rcases starts with digit | ⟨rfl, d, after, rfl, digit⟩ <;> simp [digit]
    have number : Lexeme.number (c :: (rest ++ back)) = (ofNumeral numeral, back) := by
      rw [number_eq front, found]
      simp [ofRead, complete, ofNumeral]
    have notAlpha : c.isAlpha = false := by
      rcases starts with digit | ⟨rfl, -⟩
      · exact isAlpha_of_isDigit digit
      · rfl
    rw [Lexeme.read, if_neg (by simp [notAlpha]), if_pos front, number]

def fixed (kind : Kind) : Lexeme := ⟨kind, kind.fixedText?.getD [], none, none⟩

theorem fixed_plain {kind : Kind} (spelled : kind.fixedText?.isSome = true)
    (other : kind ≠ .apostrophe) : (fixed kind).Plain := by
  have parted (touchesOperand : Bool) (rest : List Char) (breaks : Text.Breaks rest) :
      Fragment.Absent ((fixed kind).text ++ rest) ∧
        Lexeme.read touchesOperand ((fixed kind).text ++ rest) = (fixed kind, rest) := by
    cases kind with
    | apostrophe => contradiction
    | equals | pipePipe | ampersandAmpersand | pipe | ampersand | less | lessOrEquals | greater
    | greaterOrEquals | equalsEquals | tildeEquals | colon | plus | minus | star | dotStar | slash
    | dotSlash | backslash | dotBackslash | caret | dotCaret | tilde | dotApostrophe | «at» | dot
    | comma | semicolon | openParenthesis | closeParenthesis | openSquareBracket
    | closeSquareBracket | openBrace | closeBrace =>
      rcases breaks.cases with rfl | ⟨c, back, rfl, rfl | rfl | rfl | rfl | rfl⟩
      all_goals exact ⟨fun _ => rfl, rfl⟩
    | _ => cases spelled
  constructor
  case sound => rfl
  case absent => exact fun rest breaks => (parted false rest breaks).1
  case read => exact fun touchesOperand rest breaks => (parted touchesOperand rest breaks).2

end Lexeme

/-- A name that a program can give: a word that is not reserved. -/
structure Name where
  text : List Char
  isWord : Lexeme.isWord text = true
  free : Word.isReserved text = false

/-- A number that a program can hold. -/
structure Literal where
  numeral : Numeral
  isWellFormed : numeral.isWellFormed = true

def Name.lexeme (name : Name) : Lexeme := .word name.text

def Literal.lexeme (literal : Literal) : Lexeme := .ofNumeral literal.numeral

theorem Name.text_ne_nil (name : Name) : name.text ≠ [] := by
  intro empty
  have word := name.isWord
  rw [empty] at word
  cases word

theorem Literal.text_ne_nil (literal : Literal) : literal.numeral.text ≠ [] := by
  obtain ⟨c, rest, whole, -⟩ := Numeral.text_starts literal.isWellFormed
  simp [whole]

theorem Name.eq_of_text {a b : Name} (same : a.text = b.text) : a = b := by
  obtain ⟨text, isWord, free⟩ := a
  subst same
  rfl

theorem Literal.eq_of_text {a b : Literal} (same : a.numeral.text = b.numeral.text) : a = b := by
  have first := Numeral.read_text a.isWellFormed Text.breaks_nil.ends
  have second := Numeral.read_text b.isWellFormed Text.breaks_nil.ends
  rw [same] at first
  have numeral : a.numeral = b.numeral := congrArg Prod.fst (first.symm.trans second)
  obtain ⟨numeral', known⟩ := a
  subst numeral
  rfl

theorem Name.plain (name : Name) : name.lexeme.Plain := Lexeme.word_plain name.isWord

theorem Literal.solid (literal : Literal) : literal.lexeme.Solid :=
  Lexeme.ofNumeral_solid literal.isWellFormed

theorem Literal.plain (literal : Literal) : literal.lexeme.Plain := literal.solid.plain

end MatrixScript
