import MatrixScript.Proofs.Lexer.Strings

/-!
Which texts are numbers, and how far a number goes.

`Text.IsNumber` says what a number is without a reader, and `Text.IsCutShort` what is left of one
whose exponent has no digits. The reader takes the longest of either, but for a point that the
operator or the continuation behind it takes for itself.
-/

set_option autoImplicit false

namespace MatrixScript

namespace Text

def IsDigits (text : List Char) : Prop := text ≠ [] ∧ text.all Char.isDigit = true

/-- Digits, with a point among, behind or in front of them if there is one. -/
inductive IsMantissa : List Char → Prop
  | whole {digits : List Char} (some : IsDigits digits) : IsMantissa digits
  | pointed {digits fraction : List Char} (some : IsDigits digits)
      (all : fraction.all Char.isDigit = true) : IsMantissa (digits ++ '.' :: fraction)
  | fraction {digits : List Char} (some : IsDigits digits) : IsMantissa ('.' :: digits)

/-- The mark of an exponent and its sign, if there is one. -/
def IsMark (text : List Char) : Prop :=
  ∃ mark ∈ ['e', 'E'], text = [mark] ∨ text = [mark, '+'] ∨ text = [mark, '-']

/-- A mantissa, with an exponent and an imaginary suffix if there are any. -/
def IsNumber (text : List Char) : Prop :=
  ∃ mantissa exponent suffix, text = mantissa ++ (exponent ++ suffix) ∧ IsMantissa mantissa ∧
    (exponent = [] ∨ ∃ mark digits, exponent = mark ++ digits ∧ IsMark mark ∧ IsDigits digits) ∧
    (suffix = [] ∨ ∃ c ∈ ['i', 'j', 'I', 'J'], suffix = [c])

/-- A mantissa and the mark of an exponent, with no digits behind it. -/
def IsCutShort (text : List Char) : Prop :=
  ∃ mantissa mark, text = mantissa ++ mark ∧ IsMantissa mantissa ∧ IsMark mark

def endsImaginary (text : List Char) : Bool :=
  text.getLast?.any fun c => c ∈ ['i', 'j', 'I', 'J']

/-- What follows on a point and takes it for itself: an operator with a point in front, or the other
two points of a continuation. -/
def TakesPoint (text : List Char) : Prop :=
  (∃ c ∈ text.head?, c ∈ ['^', '*', '/', '\\', '\'']) ∨ ['.', '.'] <+: text

end Text

namespace Numeral

private theorem detachesPoint_iff (text : List Char) :
    detachesPoint text = true ↔ Text.TakesPoint text := by
  fun_cases detachesPoint text
  case case1 rest => simp [Text.TakesPoint]
  case case2 c rest other =>
    have single : ¬['.', '.'] <+: c :: rest := by
      rintro ⟨more, whole⟩
      obtain ⟨rfl, rfl⟩ := List.cons.inj whole
      exact other more rfl rfl
    simp [Text.TakesPoint, single, or_assoc]
  case case3 => simp [Text.TakesPoint]

/-- Digits on one side of the point at least, and nothing but digits on both. -/
def mantissaWellFormed (whole : List Char) (fraction : Option (List Char)) : Bool :=
  whole.all Char.isDigit && fraction.all (·.all Char.isDigit) &&
    (!whole.isEmpty || fraction.any (!·.isEmpty))

private theorem isMantissa_iff {text : List Char} :
    Text.IsMantissa text ↔ ∃ whole fraction,
      text = whole ++ (fraction.map ('.' :: ·)).getD [] ∧
        mantissaWellFormed whole fraction = true := by
  constructor
  · rintro (⟨some, all⟩ | ⟨⟨some, wholeAll⟩, all⟩ | ⟨some, all⟩)
    · exact ⟨text, none, by simp, by simp [mantissaWellFormed, all, some]⟩
    · exact ⟨_, Option.some _, rfl, by simp_all [mantissaWellFormed]⟩
    · exact ⟨[], Option.some _, rfl, by simp_all [mantissaWellFormed]⟩
  · rintro ⟨whole, fraction, rfl, known⟩
    simp only [mantissaWellFormed, Bool.and_eq_true] at known
    obtain ⟨⟨wholeAll, all⟩, some⟩ := known
    cases fraction with
    | none => simpa using Text.IsMantissa.whole ⟨by simpa using some, wholeAll⟩
    | some digits =>
      cases whole with
      | nil => exact Text.IsMantissa.fraction ⟨by simpa using some, by simpa using all⟩
      | cons c whole =>
        exact Text.IsMantissa.pointed ⟨List.cons_ne_nil _ _, wholeAll⟩ (by simpa using all)

def IsCut (numeral : Numeral) : Prop :=
  mantissaWellFormed numeral.whole numeral.fraction = true ∧ numeral.suffix = none ∧
    ∃ mark sign, numeral.exponent = some ⟨mark, sign, []⟩ ∧ Text.IsMark (mark :: sign.toList)

private theorem isMark_iff {mark : Char} {sign : Option Char} :
    Text.IsMark (mark :: sign.toList) ↔
      (mark = 'e' ∨ mark = 'E') ∧ sign.all (fun sign => sign == '+' || sign == '-') = true := by
  cases sign <;> simp [Text.IsMark, ← and_or_left, ← or_and_right]

private theorem exists_of_isMark {text : List Char} (isMark : Text.IsMark text) :
    ∃ mark sign, text = mark :: Option.toList sign := by
  obtain ⟨mark, -, rfl | rfl | rfl⟩ := isMark
  · exact ⟨mark, none, rfl⟩
  · exact ⟨mark, some '+', rfl⟩
  · exact ⟨mark, some '-', rfl⟩

private theorem isCutShort_iff {text : List Char} :
    Text.IsCutShort text ↔ ∃ numeral : Numeral, numeral.IsCut ∧ numeral.text = text := by
  constructor
  · rintro ⟨mantissa, mark, rfl, isMantissa, isMark⟩
    obtain ⟨whole, fraction, rfl, known⟩ := isMantissa_iff.mp isMantissa
    obtain ⟨mark, sign, rfl⟩ := exists_of_isMark isMark
    exact ⟨⟨whole, fraction, some ⟨mark, sign, []⟩, none⟩,
      ⟨known, rfl, mark, sign, rfl, isMark⟩, by simp [Numeral.text, Exponent.text]⟩
  · rintro ⟨⟨whole, fraction, -, -⟩, ⟨known, rfl, mark, sign, rfl, isMark⟩, rfl⟩
    exact ⟨_, mark :: sign.toList, by simp [Numeral.text, Exponent.text],
      isMantissa_iff.mpr ⟨whole, fraction, rfl, known⟩, isMark⟩

theorem isWellFormed_eq (numeral : Numeral) :
    numeral.isWellFormed = (mantissaWellFormed numeral.whole numeral.fraction &&
      numeral.exponent.all exponentWellFormed && numeral.suffix.all isSuffix) := rfl

private theorem isPower_iff {text : List Char} :
    (text = [] ∨ ∃ mark digits, text = mark ++ digits ∧ Text.IsMark mark ∧ Text.IsDigits digits) ↔
      ∃ exponent : Option Exponent, text = (exponent.map Exponent.text).getD [] ∧
        exponent.all exponentWellFormed = true := by
  constructor
  · rintro (rfl | ⟨mark, digits, rfl, isMark, some, all⟩)
    · exact ⟨none, rfl, rfl⟩
    · obtain ⟨mark, sign, rfl⟩ := exists_of_isMark isMark
      obtain ⟨marked, signed⟩ := isMark_iff.mp isMark
      exact ⟨Option.some ⟨mark, sign, digits⟩, rfl,
        by simp_all [exponentWellFormed]⟩
  · rintro ⟨exponent, rfl, known⟩
    cases exponent with
    | none => exact Or.inl rfl
    | some exponent =>
      simp only [Option.all_some, exponentWellFormed, Bool.and_eq_true, Bool.or_eq_true,
        beq_iff_eq, Bool.not_eq_true', List.isEmpty_eq_false_iff] at known
      obtain ⟨⟨⟨marked, signed⟩, some⟩, all⟩ := known
      exact Or.inr ⟨exponent.mark :: exponent.sign.toList, exponent.digits, rfl,
        isMark_iff.mpr ⟨marked, by simpa using signed⟩, some, all⟩

private theorem isSuffix_iff {text : List Char} :
    (text = [] ∨ ∃ c ∈ ['i', 'j', 'I', 'J'], text = [c]) ↔
      ∃ suffix : Option Char, text = suffix.toList ∧ suffix.all isSuffix = true := by
  constructor
  · rintro (rfl | ⟨c, member, rfl⟩)
    · exact ⟨none, rfl, rfl⟩
    · exact ⟨some c, rfl, by simpa [isSuffix, or_assoc] using member⟩
  · rintro ⟨suffix, rfl, known⟩
    cases suffix with
    | none => exact Or.inl rfl
    | some c => exact Or.inr ⟨c, by simpa [isSuffix, or_assoc] using known, rfl⟩

private theorem isNumber_iff {text : List Char} :
    Text.IsNumber text ↔
      ∃ numeral : Numeral, numeral.isWellFormed = true ∧ numeral.text = text := by
  constructor
  · rintro ⟨mantissa, power, suffix, rfl, isMantissa, isPower, isSuffix⟩
    obtain ⟨whole, fraction, rfl, known⟩ := isMantissa_iff.mp isMantissa
    obtain ⟨exponent, rfl, powered⟩ := isPower_iff.mp isPower
    obtain ⟨suffix, rfl, suffixed⟩ := isSuffix_iff.mp isSuffix
    exact ⟨⟨whole, fraction, exponent, suffix⟩,
      by simp [isWellFormed_eq, known, powered, suffixed], by simp [Numeral.text]⟩
  · rintro ⟨⟨whole, fraction, exponent, suffix⟩, known, rfl⟩
    simp only [isWellFormed_eq, Bool.and_eq_true] at known
    obtain ⟨⟨known, powered⟩, suffixed⟩ := known
    exact ⟨_, _, _, by simp only [Numeral.text, List.append_assoc],
      isMantissa_iff.mpr ⟨whole, fraction, rfl, known⟩, isPower_iff.mpr ⟨exponent, rfl, powered⟩,
      isSuffix_iff.mpr ⟨suffix, rfl, suffixed⟩⟩

private theorem read_exponent_known (text : List Char) :
    ∀ exponent ∈ (Exponent.read text).1, Text.IsMark (exponent.mark :: exponent.sign.toList) ∧
      exponent.digits.all Char.isDigit = true := by
  fun_cases Exponent.read text <;> simp_all [isMark_iff, -List.all_eq_true, List.all_takeWhile]

private theorem readSuffix_known (text : List Char) : (readSuffix text).1.all isSuffix = true := by
  fun_cases readSuffix text <;> simp_all

private theorem read_mantissa {c : Char} {rest : List Char}
    (starts : (c.isDigit || (c == '.' && rest.head?.any Char.isDigit)) = true) :
    mantissaWellFormed ((c :: rest).takeWhile Char.isDigit)
      (readFraction ((c :: rest).dropWhile Char.isDigit)).1 = true := by
  have digits (text : List Char) : (readFraction text).1.all (·.all Char.isDigit) = true := by
    fun_cases readFraction text <;> simp [List.all_takeWhile]
  by_cases digit : c.isDigit = true
  · simp [mantissaWellFormed, digits, digit, List.all_takeWhile]
  · simp only [digit, Bool.false_or, Bool.and_eq_true, beq_iff_eq] at starts
    obtain ⟨rfl, next⟩ := starts
    cases rest with
    | nil => simp at next
    | cons d rest =>
      have digit : d.isDigit = true := by simpa using next
      have point : Char.isDigit '.' = false := by decide
      simp [mantissaWellFormed, readFraction, detachesPoint_digit digit, point, digit,
        List.all_takeWhile]

private theorem read_known {c : Char} {rest : List Char}
    (starts : (c.isDigit || (c == '.' && rest.head?.any Char.isDigit)) = true) :
    (read (c :: rest)).1.isWellFormed = true ∨ (read (c :: rest)).1.IsCut := by
  have mantissa := read_mantissa starts
  have known := read_exponent_known (readFraction ((c :: rest).dropWhile Char.isDigit)).2
  have suffix := readSuffix_known
    (Exponent.read (readFraction ((c :: rest).dropWhile Char.isDigit)).2).2
  simp only [read, isIncomplete]
  cases power : (Exponent.read (readFraction ((c :: rest).dropWhile Char.isDigit)).2).1 with
  | none => exact Or.inl (by simp [isWellFormed_eq, mantissa, suffix])
  | some exponent =>
    obtain ⟨isMark, digits⟩ := known exponent power
    obtain ⟨marked, signed⟩ := isMark_iff.mp isMark
    obtain ⟨mark, sign, fromMark⟩ := exponent
    cases fromMark with
    | nil => exact Or.inr ⟨mantissa, rfl, mark, sign, rfl, isMark⟩
    | cons d after =>
      refine Or.inl ?_
      simp_all [isWellFormed_eq, exponentWellFormed]

private theorem digit_not_imaginary {c : Char} (digit : c.isDigit = true) :
    c ∉ ['i', 'j', 'I', 'J'] := by
  intro member
  simp only [List.mem_cons, List.not_mem_nil, or_false] at member
  rcases member with rfl | rfl | rfl | rfl <;> exact absurd digit (by decide)

private theorem not_imaginary_of_mem {numeral : Numeral} (known : numeral.isWellFormed = true)
    (none : numeral.suffix = none) {c : Char} (member : c ∈ numeral.text) :
    c ∉ ['i', 'j', 'I', 'J'] := by
  obtain ⟨whole, fraction, exponent, suffix⟩ := numeral
  obtain rfl : suffix = Option.none := none
  simp only [isWellFormed_eq, mantissaWellFormed, Bool.and_eq_true, List.all_eq_true] at known
  obtain ⟨⟨⟨⟨wholeDigits, fractionDigits⟩, -⟩, powered⟩, -⟩ := known
  simp only [Numeral.text, List.mem_append, Option.toList_none, List.not_mem_nil, or_false]
    at member
  rcases member with (inWhole | inFraction) | inPower
  · exact digit_not_imaginary (wholeDigits c inWhole)
  · cases fraction with
    | none => simp at inFraction
    | some digits =>
      rcases List.mem_cons.mp inFraction with rfl | inDigits
      · decide
      · exact digit_not_imaginary (List.all_eq_true.mp (by simpa using fractionDigits) c inDigits)
  · cases exponent with
    | none => simp at inPower
    | some exponent =>
      obtain ⟨mark, sign, digits⟩ := exponent
      simp only [Option.all_some, exponentWellFormed, Bool.and_eq_true, Bool.or_eq_true,
        beq_iff_eq, List.all_eq_true] at powered
      obtain ⟨⟨⟨marked, signed⟩, -⟩, digits⟩ := powered
      rcases List.mem_cons.mp inPower with rfl | inRest
      · rcases marked with rfl | rfl <;> decide
      · rcases List.mem_append.mp inRest with inSign | inDigits
        · cases sign with
          | none => simp at inSign
          | some sign =>
            obtain rfl : c = sign := by simpa using inSign
            rcases (by simpa using signed : c = '+' ∨ c = '-') with rfl | rfl <;> decide
        · exact digit_not_imaginary (digits c inDigits)

private theorem endsImaginary_text {numeral : Numeral} (known : numeral.isWellFormed = true) :
    Text.endsImaginary numeral.text = numeral.suffix.isSome := by
  cases suffix : numeral.suffix with
  | none =>
    cases last : numeral.text.getLast? with
    | none => simp [Text.endsImaginary, last]
    | some c =>
      have other := not_imaginary_of_mem known suffix (List.mem_of_getLast? last)
      simpa [Text.endsImaginary, last] using other
  | some c =>
    have imaginary : isSuffix c = true := by
      simp only [isWellFormed_eq, Bool.and_eq_true, suffix, Option.all_some] at known
      exact known.2
    have last : numeral.text.getLast? = some c := by
      rw [Numeral.text, suffix, Option.toList_some, List.getLast?_concat]
    simpa [Text.endsImaginary, last, isSuffix, or_assoc] using imaginary

private theorem exists_value {numeral : Numeral} (complete : numeral.isIncomplete = false) :
    ∃ x, numeral.value? = some x := by
  cases power : numeral.exponent with
  | none => simp [value?, power]
  | some exponent =>
    have digits : exponent.digits.isEmpty = false := by simpa [isIncomplete, power] using complete
    simp [value?, power, Exponent.power?, digits]

private theorem IsCut.isIncomplete {numeral : Numeral} (cut : numeral.IsCut) :
    numeral.isIncomplete = true := by
  obtain ⟨-, -, mark, sign, power, -⟩ := cut
  simp [Numeral.isIncomplete, power]

private theorem IsCut.value? {numeral : Numeral} (cut : numeral.IsCut) : numeral.value? = none := by
  obtain ⟨-, -, mark, sign, power, -⟩ := cut
  simp [Numeral.value?, power, Exponent.power?]

def afterMantissa (text : List Char) : List Char :=
  let (exponent, after) := Exponent.read text
  if exponent.any (·.digits.isEmpty) then after else (readSuffix after).2

private theorem read_rest (text : List Char) :
    (read text).2 = afterMantissa (readFraction (text.dropWhile Char.isDigit)).2 :=
  apply_ite Prod.snd _ _ _

private theorem exponent_rest_suffix (text : List Char) : (Exponent.read text).2 <:+ text :=
  ⟨_, Exponent.read_append text⟩

private theorem afterMantissa_suffix (text : List Char) :
    afterMantissa text <:+ (Exponent.read text).2 := by
  simp only [afterMantissa]
  split
  · exact List.suffix_rfl
  · exact ⟨_, readSuffix_append _⟩

private theorem dropWhile_digits_suffix {digits more : List Char}
    (all : digits.all Char.isDigit = true) : (digits ++ more).dropWhile Char.isDigit <:+ more := by
  rw [List.dropWhile_append_of_pos (List.all_eq_true.mp all)]
  exact List.dropWhile_suffix _

private theorem exponent_rest_suffix_of_isMark {mark : Char} {sign : Option Char}
    {digits : List Char}
    (isMark : Text.IsMark (mark :: sign.toList)) (all : digits.all Char.isDigit = true)
    (more : List Char) :
    (Exponent.read (mark :: (sign.toList ++ (digits ++ more)))).2 <:+ more := by
  obtain ⟨marked, signed⟩ := isMark_iff.mp isMark
  cases sign with
  | some sign =>
    rcases (by simpa using signed : sign = '+' ∨ sign = '-') with rfl | rfl
    · simpa [Exponent.read, marked] using dropWhile_digits_suffix all
    · simpa [Exponent.read, marked] using dropWhile_digits_suffix all
  | none =>
    cases digits with
    | cons d digits =>
      have digit : d.isDigit = true := by simp_all
      have plus : d ≠ '+' := by
        rintro rfl
        exact absurd digit (by decide)
      have minus : d ≠ '-' := by
        rintro rfl
        exact absurd digit (by decide)
      simpa [Exponent.read, marked, plus, minus] using dropWhile_digits_suffix all
    | nil =>
      simp only [Option.toList_none, List.nil_append, Exponent.read, marked, if_true]
      split
      · exact (List.dropWhile_suffix _).trans (List.suffix_cons _ _)
      · exact (List.dropWhile_suffix _).trans (List.suffix_cons _ _)
      · exact List.dropWhile_suffix _

private theorem exponent_known {numeral : Numeral}
    (known : numeral.isWellFormed = true ∨ numeral.IsCut) :
    ∀ exponent ∈ numeral.exponent, Text.IsMark (exponent.mark :: exponent.sign.toList) ∧
      exponent.digits.all Char.isDigit = true := by
  intro exponent found
  rcases known with known | ⟨-, -, mark, sign, same, isMark⟩
  · simp only [isWellFormed_eq, Option.mem_def.mp found, Bool.and_eq_true, Option.all_some,
      exponentWellFormed, Bool.or_eq_true, beq_iff_eq] at known
    obtain ⟨⟨-, ⟨⟨marked, signed⟩, -⟩, all⟩, -⟩ := known
    exact ⟨isMark_iff.mpr ⟨marked, by simpa using signed⟩, all⟩
  · obtain rfl : _ = exponent := Option.some.inj (same.symm.trans found)
    exact ⟨isMark, rfl⟩

private theorem tail_unnumeric {numeral : Numeral}
    (known : numeral.isWellFormed = true ∨ numeral.IsCut)
    (more : List Char) (some : ¬(numeral.exponent = none ∧ numeral.suffix = none)) :
    Text.Unnumeric ((numeral.exponent.map Exponent.text).getD [] ++
      (numeral.suffix.toList ++ more)) := by
  intro c front
  cases power : numeral.exponent with
  | some exponent =>
    obtain ⟨marked, -⟩ := isMark_iff.mp (exponent_known known exponent power).1
    obtain rfl : exponent.mark = c := by simpa [power, Exponent.text] using front
    rcases marked with marked | marked
    · rw [marked]
      decide
    · rw [marked]
      decide
  | none =>
    cases suffix : numeral.suffix with
    | none => exact absurd ⟨power, suffix⟩ some
    | some d =>
      obtain rfl : d = c := by simpa [power, suffix] using front
      have notCut : ¬numeral.IsCut := by
        intro cut
        have none := cut.2.1
        rw [suffix] at none
        cases none
      have known := known.resolve_right notCut
      simp only [isWellFormed_eq, Bool.and_eq_true, suffix, Option.all_some] at known
      exact (suffix_starts known.2).1

private theorem afterMantissa_suffix_of_known {numeral : Numeral}
    (known : numeral.isWellFormed = true ∨ numeral.IsCut) (more : List Char) :
    afterMantissa ((numeral.exponent.map Exponent.text).getD [] ++
      (numeral.suffix.toList ++ more)) <:+ more := by
  obtain ⟨whole, fraction, exponent, suffix⟩ := numeral
  cases suffix with
  | some c =>
    -- A suffix ends the digits of the exponent, so the exponent is read just as it is written.
    have known := known.resolve_right fun cut => nomatch cut.2.1
    simp only [isWellFormed_eq, Bool.and_eq_true, Option.all_some] at known
    obtain ⟨⟨-, powered⟩, imaginary⟩ := known
    have starts := suffix_starts imaginary
    have stops : Text.Unnumeric (c :: more) := by
      intro d front
      obtain rfl : c = d := by simpa using front
      exact starts.1
    have unmarked : ∀ d ∈ (c :: more).head?, ¬(d = 'e' ∨ d = 'E') := by
      intro d front
      obtain rfl : c = d := by simpa using front
      exact starts.2
    have complete : exponent.any (·.digits.isEmpty) = false := by
      cases exponent with
      | none => rfl
      | some exponent => simp_all [exponentWellFormed]
    have power := read_exponent powered stops unmarked
    simp [afterMantissa, power, complete, readSuffix, imaginary]
  | none =>
    cases exponent with
    | none => exact (afterMantissa_suffix more).trans (exponent_rest_suffix more)
    | some exponent =>
      obtain ⟨isMark, all⟩ := exponent_known known exponent rfl
      refine (afterMantissa_suffix _).trans ?_
      simpa [Exponent.text] using exponent_rest_suffix_of_isMark isMark all more

private theorem read_suffix {numeral : Numeral}
    (known : numeral.isWellFormed = true ∨ numeral.IsCut)
    {more : List Char} (free : ∀ digits rest, numeral.text ++ more = digits ++ '.' :: rest →
      Text.IsDigits digits → detachesPoint rest = false) :
    (read (numeral.text ++ more)).2 <:+ more := by
  have after := afterMantissa_suffix_of_known known more
  have mantissa : mantissaWellFormed numeral.whole numeral.fraction = true := by
    rcases known with known | cut
    · simp_all [isWellFormed_eq]
    · exact cut.1
  obtain ⟨whole, fraction, exponent, suffix⟩ := numeral
  simp only [mantissaWellFormed, Bool.and_eq_true] at mantissa
  obtain ⟨⟨wholeDigits, fractionDigits⟩, some⟩ := mantissa
  have text : Numeral.text ⟨whole, fraction, exponent, suffix⟩ ++ more =
      whole ++ ((fraction.map ('.' :: ·)).getD [] ++
        ((exponent.map Exponent.text).getD [] ++ (suffix.toList ++ more))) := by
    simp [Numeral.text]
  rw [text] at free ⊢
  rw [read_rest]
  -- What stands behind the mantissa stops its digits, unless nothing does.
  by_cases bare : exponent = none ∧ suffix = none
  · obtain ⟨rfl, rfl⟩ := bare
    refine (afterMantissa_suffix _).trans ((exponent_rest_suffix _).trans ?_)
    cases fraction with
    | none =>
      have rest : (readFraction ((whole ++ more).dropWhile Char.isDigit)).2 <:+
          (whole ++ more).dropWhile Char.isDigit := ⟨_, readFraction_append _⟩
      exact rest.trans (dropWhile_digits_suffix wholeDigits)
    | some digits =>
      have stops : ∀ c ∈ ('.' :: (digits ++ more)).head?, c.isDigit = false := by simp
      have span := (Text.span_append wholeDigits stops).2
      have all : digits.all Char.isDigit = true := by simpa using fractionDigits
      have detached : detachesPoint (digits ++ more) = false := by
        cases whole with
        | cons c whole => exact free _ _ rfl ⟨List.cons_ne_nil _ _, wholeDigits⟩
        | nil =>
          cases digits with
          | nil => simp at some
          | cons d digits =>
            simp only [List.all_cons, Bool.and_eq_true] at all
            exact detachesPoint_digit all.1 _
      simpa [span, readFraction, detached] using dropWhile_digits_suffix all
  · have stops : Text.Unnumeric ((exponent.map Exponent.text).getD [] ++
        (suffix.toList ++ more)) := tail_unnumeric known more bare
    have whole := (Text.span_append wholeDigits (fraction_follows fraction stops)).2
    rw [whole, readFraction_fraction fractionDigits stops]
    exact after

private theorem read_longest {text word : List Char}
    (free : ∀ digits rest, text = digits ++ '.' :: rest → Text.IsDigits digits →
      ¬Text.TakesPoint rest)
    (front : word <+: text) (known : Text.IsNumber word ∨ Text.IsCutShort word) :
    word.length ≤ (read text).1.text.length := by
  obtain ⟨more, rfl⟩ := front
  obtain ⟨numeral, admissible, rfl⟩ : ∃ numeral : Numeral,
      (numeral.isWellFormed = true ∨ numeral.IsCut) ∧ numeral.text = word := by
    rcases known with isNumber | isCutShort
    · obtain ⟨numeral, known, same⟩ := isNumber_iff.mp isNumber
      exact ⟨numeral, Or.inl known, same⟩
    · obtain ⟨numeral, cut, same⟩ := isCutShort_iff.mp isCutShort
      exact ⟨numeral, Or.inr cut, same⟩
  have left : (read (numeral.text ++ more)).2 <:+ more := by
    refine read_suffix admissible fun digits rest split isDigits => ?_
    rw [Bool.eq_false_iff]
    intro detaches
    exact free digits rest split isDigits ((detachesPoint_iff rest).mp detaches)
  have shorter := left.length_le
  have lengths := congrArg List.length (read_append (numeral.text ++ more))
  simp only [List.length_append] at lengths
  omega

private theorem read_digits {digits rest : List Char} (isDigits : Text.IsDigits digits)
    (taken : Text.TakesPoint rest) :
    read (digits ++ '.' :: rest) = (⟨digits, none, none, none⟩, '.' :: rest) := by
  have stops : ∀ c ∈ ('.' :: rest).head?, c.isDigit = false := by simp
  have span := Text.span_append isDigits.2 stops
  have detaches := (detachesPoint_iff rest).mpr taken
  have suffix : isSuffix '.' = false := rfl
  simp [read, span, readFraction, detaches, Exponent.read, isIncomplete, readSuffix, suffix]

end Numeral

private theorem Lexeme.read_eq_number {touchesOperand : Bool} {text : List Char}
    (kind : (read touchesOperand text).1.kind = .numberLiteral) :
    ∃ c rest, text = c :: rest ∧ (c.isDigit || (c == '.' && rest.head?.any Char.isDigit)) = true ∧
      read touchesOperand text = number text := by
  revert kind
  fun_cases read touchesOperand text
  case case1 => exact Kind.noConfusion
  case case2 => exact Kind.noConfusion
  case case3 c rest _ starts => exact fun _ => ⟨c, rest, rfl, starts, rfl⟩
  case case4 => exact Kind.noConfusion
  case case5 => exact Kind.noConfusion
  case case6 => exact Kind.noConfusion
  case case7 c rest _ _ _ _ =>
    exact fun kind => absurd kind (operator_kind_ne rfl (by decide) c rest)

/-- What a number means: it is imaginary where it has a suffix. -/
def Value.ofNumber (text : List Char) (x : Double) : Value :=
  if Text.endsImaginary text then .imaginary x else .number x

private theorem Lexeme.ofNumeral_value {numeral : Numeral} (known : numeral.isWellFormed = true) :
    ∃ x, (ofNumeral numeral).value = some (Value.ofNumber numeral.text x) := by
  obtain ⟨x, value⟩ := Numeral.exists_value (Numeral.not_isIncomplete known)
  exact ⟨x, by simp [ofNumeral, value, Value.ofNumber, Numeral.endsImaginary_text known]⟩

private theorem Lexeme.number_known {c : Char} {rest : List Char}
    (starts : (c.isDigit || (c == '.' && rest.head?.any Char.isDigit)) = true)
    {lexeme : Lexeme} {after : List Char} (number : number (c :: rest) = (lexeme, after)) :
    Text.IsNumber lexeme.text ∧ lexeme.problem = none ∧
        (∃ x, lexeme.value = some (Value.ofNumber lexeme.text x)) ∨
      Text.IsCutShort lexeme.text ∧ lexeme.value = none ∧
        lexeme.problem = some ⟨.unexpectedCharacterInNumber (after.headD '\x00'),
          Range.ofLength (Text.byteSize lexeme.text) (Text.byteSize (after.take 1))⟩ := by
  have known := Numeral.read_known starts
  rcases read : Numeral.read (c :: rest) with ⟨numeral, left⟩
  rw [read] at known
  rw [number_eq starts, read] at number
  obtain ⟨rfl, rfl⟩ := Prod.mk.inj number
  rcases known with known | cut
  · have complete := Numeral.not_isIncomplete known
    exact Or.inl ⟨Numeral.isNumber_iff.mpr ⟨numeral, known, rfl⟩, if_neg (by simp [complete]),
      ofNumeral_value known⟩
  · exact Or.inr ⟨Numeral.isCutShort_iff.mpr ⟨numeral, cut, rfl⟩, by simp [cut.value?],
      by simp [cut.isIncomplete]⟩

/-- Every number is cut into itself alone, without problems and with a value. And the numbers of a
text are the longest that stand in it, but for a point that what follows takes for itself; where an
exponent lacks its digits the number has no value, and the character after it is reported. -/
theorem tokenize_numbers :
    (∀ text, Text.IsNumber text → ∃ x ending, tokenize text =
      .ok ⟨[⟨{ kind := .numberLiteral
               text := text
               value := some (Value.ofNumber text x) }, Position.start⟩],
        ⟨Token.endOfText, ending⟩⟩) ∧
    ∀ text stream, tokenize text = .ok stream →
      ∀ placed ∈ stream.toList, placed.kind = .numberLiteral →
        ∃ word front after,
          placed.token.trimmed? = some word ∧
          front ++ (word ++ after) = text ∧ Text.byteSize front = placed.range.start ∧
          (Text.IsNumber word ∧ placed.diagnostics = [] ∧
              (∃ x, placed.token.value = some (Value.ofNumber word x)) ∨
            Text.IsCutShort word ∧ placed.token.value = none ∧
              placed.diagnostics = [⟨.unexpectedCharacterInNumber (after.headD '\x00'),
                Range.ofLength placed.range.stop (Text.byteSize (after.take 1))⟩]) ∧
          (∀ digits rest, word ++ after = digits ++ '.' :: rest → Text.IsDigits digits →
            Text.TakesPoint rest → word = digits) ∧
          ((∀ digits rest, word ++ after = digits ++ '.' :: rest → Text.IsDigits digits →
              ¬Text.TakesPoint rest) →
            ∀ other, other <+: word ++ after → Text.IsNumber other ∨ Text.IsCutShort other →
              other.length ≤ word.length) := by
  constructor
  · intro text isNumber
    obtain ⟨numeral, known, rfl⟩ := Numeral.isNumber_iff.mp isNumber
    obtain ⟨x, value⟩ := Lexeme.ofNumeral_value known
    obtain ⟨ending, lexed⟩ := (Lexeme.ofNumeral_solid known).plain.detached.tokenize rfl rfl
    refine ⟨x, ending, ?_⟩
    rw [← value]
    exact lexed
  · intro text stream lexed placed member kind
    have inner : placed.kind ≠ .unquotedStringLiteral ∧ placed.kind ≠ .eof := by
      rw [kind]
      decide
    obtain ⟨touchesOperand, lexeme, after, readOff, reads⟩ :=
      exists_readOff lexed member inner.1
    obtain ⟨c, rest, ahead, starts, number⟩ := @Lexeme.read_eq_number touchesOperand
      (lexeme.text ++ after) (by rw [reads, ← readOff.kind, kind])
    have number : Lexeme.number (c :: rest) = (lexeme, after) := by
      rw [← ahead, ← number, reads]
    obtain ⟨front, whole, start⟩ := readOff.stands
    have word : (Numeral.read (c :: rest)).1.text = lexeme.text := by
      rw [Lexeme.number_eq starts] at number
      exact congrArg (fun read => read.1.text) number
    refine ⟨lexeme.text, front, after, readOff.trimmed, whole, start, ?_, ?_, ?_⟩
    · rw [readOff.value, readOff.diagnostics inner.2]
      refine (Lexeme.number_known starts number).imp ?_ ?_
      · rintro ⟨isNumber, sound, value⟩
        exact ⟨isNumber, by simp [sound], value⟩
      · rintro ⟨isCutShort, none, problem⟩
        refine ⟨isCutShort, none, ?_⟩
        simp only [problem, readOff.stop, Option.toList_some, List.map_cons, List.map_nil,
          Diagnostic.shift, Range.shift, Range.ofLength, List.cons.injEq, Diagnostic.mk.injEq,
          Range.mk.injEq, and_true, true_and]
        omega
    · intro digits rest split isDigits taken
      rw [← word, ← ahead, split, Numeral.read_digits isDigits taken]
      simp [Numeral.text]
    · intro free other front known
      rw [← word, ← ahead]
      exact Numeral.read_longest free front known

/-- A number with all parts; then the points of a power and of a product, and an exponent that the
end of the text cuts short. -/
theorem tokenize_numbers_taken :
    Text.IsNumber "1.5E-3j".toList ∧
      (∃ x ending, tokenize "1.5E-3j".toList =
        .ok ⟨[⟨{ kind := .numberLiteral
                 text := "1.5E-3j".toList
                 value := some (Value.ofNumber "1.5E-3j".toList x) }, Position.start⟩],
          ⟨Token.endOfText, ending⟩⟩) ∧
      ∃ stream, tokenize "1.^2..*.3e+".toList = .ok stream ∧
        (stream.toList.filter (·.kind == .numberLiteral)).map (·.token.trimmed?) =
          [some ['1'], some "2.".toList, some ".3e+".toList] ∧
        ∀ placed ∈ stream.toList, placed.kind = .numberLiteral →
          ∃ word, placed.token.trimmed? = some word ∧
            (Text.IsNumber word ∧ placed.diagnostics = [] ∨
              Text.IsCutShort word ∧ placed.token.value = none) := by
  have isNumber : Text.IsNumber "1.5E-3j".toList :=
    Numeral.isNumber_iff.mpr
      ⟨⟨['1'], some ['5'], some ⟨'E', some '-', ['3']⟩, some 'j'⟩, by decide, by decide⟩
  refine ⟨isNumber, tokenize_numbers.1 _ isNumber, ?_⟩
  have ok : (tokenize "1.^2..*.3e+".toList).toOption.any (fun stream =>
      (stream.toList.filter (·.kind == .numberLiteral)).map (·.token.trimmed?) ==
        [some ['1'], some "2.".toList, some ".3e+".toList]) = true := by decide +kernel
  obtain ⟨stream, lexed, words⟩ := exists_ok_of_any ok
  refine ⟨stream, lexed, by simpa using words, ?_⟩
  intro placed member kind
  obtain ⟨word, _, _, spelled, -, -, known, -⟩ :=
    tokenize_numbers.2 _ stream lexed placed member kind
  exact ⟨word, spelled, known.imp (fun number => ⟨number.1, number.2.1⟩)
    fun short => ⟨short.1, short.2.1⟩⟩

end MatrixScript
