import MatrixScript.Lexeme

/-!
Scanning a number takes the numeral that `Numeral.read` takes apart.

A digit moves the scanner to the stage for the digits of the part it stands in (`step_digit`), so a
stretch of digits is taken whole (`run_digits`). From each stage the scanner then takes what is left
of a numeral, and where a number starts it takes all of it (`run_start`). The text taken is the
numeral without its suffix, and has the value of the numeral.
-/

set_option autoImplicit false

namespace MatrixScript

namespace Numeral

namespace Scan

@[simp]
theorem push_nil (scan : Scan) : scan.push [] = scan := rfl

@[simp]
theorem push_push (scan : Scan) (a b : List Char) : (scan.push b).push a = scan.push (a ++ b) := by
  simp [push]

end Scan

def Stage.onDigit : Stage → Stage
  | .start | .whole => .whole
  | .point | .fraction => .fraction
  | .mark | .sign | .power => .power

theorem step_digit (stage : Stage) {c : Char} (digit : c.isDigit = true) (after : List Char) :
    step stage c after = .take stage.onDigit := by
  cases stage <;> simp [step, digit, Stage.onDigit]

private theorem run_digit (stage : Stage) {c : Char} (digit : c.isDigit = true)
    (after : List Char) :
    run stage (c :: after) = (run stage.onDigit after).push [c] := by
  rw [run, step_digit stage digit]

/-- Stages that go on alike behind a digit take the same text from one on. -/
private theorem run_eq_of_digit (stage other : Stage) (same : stage.onDigit = other.onDigit)
    {c : Char} (digit : c.isDigit = true) (after : List Char) :
    run stage (c :: after) = run other (c :: after) := by
  rw [run_digit stage digit, run_digit other digit, same]

/-- Digits are taken as far as they go. -/
theorem run_digits {stage : Stage} (among : stage.onDigit = stage) (text : List Char) :
    run stage text =
      (run stage (text.dropWhile Char.isDigit)).push (text.takeWhile Char.isDigit) := by
  induction text with
  | nil => rfl
  | cons c after ih =>
    by_cases digit : c.isDigit = true
    · rw [run_digit stage digit, among, ih, List.dropWhile_cons_of_pos digit,
        List.takeWhile_cons_of_pos digit, Scan.push_push, List.singleton_append]
    · rw [List.dropWhile_cons_of_neg digit, List.takeWhile_cons_of_neg digit, Scan.push_nil]

private def Undigited (text : List Char) : Prop := ∀ c ∈ text.head?, c.isDigit = false

private theorem undigited_dropWhile (text : List Char) :
    Undigited (text.dropWhile Char.isDigit) := fun c front => by
  have stops := List.head?_dropWhile_not Char.isDigit text
  rw [Option.mem_def.mp front] at stops
  exact stops

def closed (text : List Char) : Scan :=
  ⟨[], (readSuffix text).1.elim .plain .imaginary, (readSuffix text).2⟩

private theorem run_of_close {stage : Stage} (plain : stage.ending = .plain) {text : List Char}
    (closes : ∀ c after, text = c :: after → step stage c after = close c) :
    run stage text = closed text := by
  cases text with
  | nil => simp [run, closed, readSuffix, plain]
  | cons c after =>
    by_cases suffix : isSuffix c
    · simp [run, closes c after rfl, close, closed, readSuffix, suffix]
    · simp [run, closes c after rfl, close, closed, readSuffix, suffix, plain]

private theorem run_power (text : List Char) :
    run .power text =
      (closed (text.dropWhile Char.isDigit)).push (text.takeWhile Char.isDigit) := by
  rw [run_digits rfl text]
  have stops := undigited_dropWhile text
  refine congrArg (Scan.push · _) (run_of_close rfl fun c after front => ?_)
  rw [front] at stops
  simp [step, stops c rfl]

/-- What is taken behind the mark of an exponent and its sign: the digits of the exponent and a
suffix, or nothing where there are no digits. -/
def powered (text : List Char) : Scan :=
  if (text.takeWhile Char.isDigit).isEmpty then ⟨[], .lacking, text.dropWhile Char.isDigit⟩
  else (closed (text.dropWhile Char.isDigit)).push (text.takeWhile Char.isDigit)

private theorem run_sign (text : List Char) : run .sign text = powered text := by
  cases text with
  | nil => rfl
  | cons c after =>
    by_cases digit : c.isDigit = true
    · rw [run_eq_of_digit .sign .power rfl digit, run_power]
      simp [powered, digit]
    · simp [run, step, digit, powered, Stage.ending]

private theorem run_mark (text : List Char) :
    run .mark text = match text with
      | '+' :: after => (powered after).push ['+']
      | '-' :: after => (powered after).push ['-']
      | text => powered text := by
  cases text with
  | nil => rfl
  | cons c after =>
    by_cases sign : c = '+' ∨ c = '-'
    · rcases sign with rfl | rfl <;> simp [run, step, run_sign]
    · rw [not_or] at sign
      have same : run .mark (c :: after) = run .sign (c :: after) := by
        by_cases digit : c.isDigit = true
        · exact run_eq_of_digit .mark .sign rfl digit after
        · simp [run, step, digit, sign, Stage.ending]
      rw [same, run_sign]
      simp [sign]

/-- What is taken behind the digits of a number: an exponent and a suffix. -/
def marked (text : List Char) : Scan :=
  match Exponent.read text with
  | (none, after) => closed after
  | (some exponent, after) =>
    if exponent.digits.isEmpty then ⟨exponent.text, .lacking, after⟩
    else (closed after).push exponent.text

private theorem marked_of_read {text after : List Char} {mark : Char} {sign : Option Char}
    (found : Exponent.read text =
      (some ⟨mark, sign, after.takeWhile Char.isDigit⟩, after.dropWhile Char.isDigit)) :
    marked text = (powered after).push (mark :: sign.toList) := by
  simp only [marked, found, powered]
  split
  next nothing => simp [Exponent.text, Scan.push, List.isEmpty_iff.mp nothing]
  next => simp [Exponent.text, Scan.push]

private theorem marked_cons {c : Char} (mark : c = 'e' ∨ c = 'E') (after : List Char) :
    marked (c :: after) = (run .mark after).push [c] := by
  rw [run_mark]
  split
  case h_1 =>
    rw [Scan.push_push]
    refine @marked_of_read _ _ _ (some '+') ?_
    simp only [Exponent.read, if_pos mark]
  case h_2 =>
    rw [Scan.push_push]
    refine @marked_of_read _ _ _ (some '-') ?_
    simp only [Exponent.read, if_pos mark]
  case h_3 =>
    refine @marked_of_read _ _ _ none ?_
    simp only [Exponent.read, if_pos mark]

private theorem marked_of_unmarked {text : List Char}
    (unmarked : ∀ c ∈ text.head?, ¬(c = 'e' ∨ c = 'E')) : marked text = closed text := by
  cases text with
  | nil => rfl
  | cons c after => simp only [marked, Exponent.read, if_neg (unmarked c rfl)]

private theorem run_fraction (text : List Char) :
    run .fraction text =
      (marked (text.dropWhile Char.isDigit)).push (text.takeWhile Char.isDigit) := by
  rw [run_digits rfl text]
  refine congrArg (Scan.push · _) ?_
  have stops := undigited_dropWhile text
  generalize text.dropWhile Char.isDigit = later at stops
  by_cases mark : ∃ c after, later = c :: after ∧ (c = 'e' ∨ c = 'E')
  · obtain ⟨c, after, rfl, mark⟩ := mark
    simp [marked_cons mark, run, step, stops c rfl, mark]
  · rw [marked_of_unmarked fun c front mark' => mark ?_]
    · refine run_of_close rfl fun c after front => ?_
      have other : ¬(c = 'e' ∨ c = 'E') := fun mark' => mark ⟨c, after, front, mark'⟩
      subst front
      simp [step, stops c rfl, other]
    · obtain ⟨after, rfl⟩ := List.head?_eq_some_iff.mp front
      exact ⟨c, after, rfl, mark'⟩

/-- What is taken behind the whole digits of a number: a fraction, an exponent and a suffix. -/
def pointed (text : List Char) : Scan :=
  (marked (readFraction text).2).push (((readFraction text).1.map ('.' :: ·)).getD [])

private theorem run_point (text : List Char) : run .point text = run .fraction text := by
  cases text with
  | nil => rfl
  | cons c after => rfl

private theorem run_whole (text : List Char) :
    run .whole text =
      (pointed (text.dropWhile Char.isDigit)).push (text.takeWhile Char.isDigit) := by
  rw [run_digits rfl text]
  refine congrArg (Scan.push · _) ?_
  have stops := undigited_dropWhile text
  generalize text.dropWhile Char.isDigit = later at stops
  cases later with
  | nil => rfl
  | cons c after =>
    have notDigit : c.isDigit = false := stops c rfl
    by_cases point : c = '.'
    · subst point
      by_cases detached : detachesPoint after = true
      · have other : ∀ c ∈ ('.' :: after).head?, ¬(c = 'e' ∨ c = 'E') := by simp
        simp [run, step, notDigit, detached, pointed, readFraction, marked_of_unmarked other,
          closed, readSuffix, isSuffix, Stage.ending]
      · simp [run, step, notDigit, detached, pointed, readFraction, run_point, run_fraction]
    · have nothing : readFraction (c :: after) = (none, c :: after) := by simp [readFraction, point]
      have same : run .whole (c :: after) = run .fraction (c :: after) := by
        simp [run, step, notDigit, point, Stage.ending]
      rw [same, run_fraction, List.dropWhile_cons_of_neg (by simp [notDigit]),
        List.takeWhile_cons_of_neg (by simp [notDigit]), Scan.push_nil]
      simp [pointed, nothing]

def stem (numeral : Numeral) : List Char :=
  numeral.whole ++ (numeral.fraction.map ('.' :: ·)).getD [] ++
    (numeral.exponent.map Exponent.text).getD []

def ending (numeral : Numeral) : Ending :=
  if numeral.isIncomplete then .lacking else numeral.suffix.elim .plain .imaginary

private theorem pointed_eq_read (text : List Char) :
    (pointed (text.dropWhile Char.isDigit)).push (text.takeWhile Char.isDigit) =
      ⟨(read text).1.stem, (read text).1.ending, (read text).2⟩ := by
  simp only [pointed, marked, read]
  rcases readFraction (text.dropWhile Char.isDigit) with ⟨fraction, afterFraction⟩
  rcases Exponent.read afterFraction with ⟨exponent, afterExponent⟩
  cases exponent with
  | none => simp [isIncomplete, closed, Scan.push, stem, ending]
  | some exponent =>
    by_cases lacking : exponent.digits.isEmpty = true
    · simp [isIncomplete, lacking, Scan.push, stem, ending]
    · simp [isIncomplete, lacking, closed, Scan.push, stem, ending]

/-- Where a number starts, the scanner takes the numeral that is read. -/
theorem run_start {c : Char} {after : List Char}
    (starts : (c.isDigit || (c == '.' && after.head?.any Char.isDigit)) = true) :
    run .start (c :: after) =
      ⟨(read (c :: after)).1.stem, (read (c :: after)).1.ending, (read (c :: after)).2⟩ := by
  rw [← pointed_eq_read]
  by_cases digit : c.isDigit = true
  · rw [run_eq_of_digit .start .whole rfl digit, run_whole]
  · simp only [digit, Bool.false_or, Bool.and_eq_true, beq_iff_eq] at starts
    obtain ⟨rfl, next⟩ := starts
    cases after with
    | nil => simp at next
    | cons d later =>
      have joined : detachesPoint (d :: later) = false := detachesPoint_digit next later
      rw [run, show step .start '.' (d :: later) = .take .point from rfl]
      simp [run_point, run_fraction, pointed, readFraction, joined, digit]

end Numeral

/-! Texts that end what stands before them. -/

/-- Nothing or a blank or a semicolon comes next, which goes on with no lexeme. -/
def Text.Breaks (text : List Char) : Prop :=
  ∀ c ∈ text.head?, c = ' ' ∨ c = '\t' ∨ c = '\n' ∨ c = '\r' ∨ c = ';'

theorem Text.breaks_nil : Breaks [] := by simp [Breaks]

theorem Text.Breaks.cases {text : List Char} (breaks : Breaks text) :
    text = [] ∨ ∃ c rest, text = c :: rest ∧
      (c = ' ' ∨ c = '\t' ∨ c = '\n' ∨ c = '\r' ∨ c = ';') := by
  cases text with
  | nil => exact Or.inl rfl
  | cons c rest => exact Or.inr ⟨c, rest, rfl, breaks c rfl⟩

def Text.isNumeric (c : Char) : Bool :=
  c.isDigit || c ∈ ['.', '^', '*', '/', '\\', '\'']

/-- Nothing comes next that goes on with digits or takes a point away from them. -/
def Text.Unnumeric (text : List Char) : Prop := ∀ c ∈ text.head?, isNumeric c = false

def Text.Ends (text : List Char) : Prop :=
  ∀ c ∈ text.head?, isNumeric c = false ∧ Lexeme.isWordChar c = false

namespace Text

private theorem Ends.unnumeric {text : List Char} (ends : Ends text) : Unnumeric text :=
  fun c front => (ends c front).1

theorem Ends.append {front : List Char} (ends : Ends front) (some : front ≠ [])
    (back : List Char) : Ends (front ++ back) := by
  obtain ⟨c, front, rfl⟩ := List.exists_cons_of_ne_nil some
  exact ends

theorem Breaks.ends {text : List Char} (breaks : Breaks text) : Ends text := by
  intro c front
  rcases breaks c front with rfl | rfl | rfl | rfl | rfl <;> decide

/-- A run of characters that pass a test ends where the next one fails it. -/
theorem span_append {test : Char → Bool} {front back : List Char} (all : front.all test = true)
    (stops : ∀ c ∈ back.head?, test c = false) :
    (front ++ back).takeWhile test = front ∧ (front ++ back).dropWhile test = back := by
  have last : back.takeWhile test = [] ∧ back.dropWhile test = back := by
    cases back with
    | nil => exact ⟨rfl, rfl⟩
    | cons c back => simp [stops c rfl]
  have passes : ∀ c ∈ front, test c = true := List.all_eq_true.mp all
  rw [List.takeWhile_append_of_pos passes, List.dropWhile_append_of_pos passes, last.1, last.2]
  simp

private theorem digits_append {front back : List Char} (all : front.all Char.isDigit = true)
    (stops : Unnumeric back) :
    (front ++ back).takeWhile Char.isDigit = front ∧
      (front ++ back).dropWhile Char.isDigit = back := by
  refine span_append all fun c found => ?_
  have other := stops c found
  simp only [isNumeric, Bool.or_eq_false_iff] at other
  exact other.1

end Text

namespace Numeral

private theorem ne_sign_of_isDigit {c : Char} (digit : c.isDigit = true) : c ≠ '+' ∧ c ≠ '-' := by
  constructor
  · rintro rfl
    cases digit
  · rintro rfl
    cases digit

def exponentWellFormed (exponent : Exponent) : Bool :=
  (exponent.mark == 'e' || exponent.mark == 'E') &&
    exponent.sign.all (fun sign => sign == '+' || sign == '-') &&
    !exponent.digits.isEmpty && exponent.digits.all Char.isDigit

/-- Digits on one side of the point at least, and digits wherever there must be some. -/
def isWellFormed (numeral : Numeral) : Bool :=
  numeral.whole.all Char.isDigit && numeral.fraction.all (·.all Char.isDigit) &&
    (!numeral.whole.isEmpty || numeral.fraction.any (!·.isEmpty)) &&
    numeral.exponent.all exponentWellFormed && numeral.suffix.all isSuffix

private theorem readSuffix_suffix {suffix : Option Char} (known : suffix.all isSuffix = true)
    {rest : List Char} (ends : Text.Ends rest) :
    readSuffix (suffix.toList ++ rest) = (suffix, rest) := by
  cases suffix with
  | some c =>
    have isSuffix : isSuffix c = true := by simpa using known
    simp [readSuffix, isSuffix]
  | none =>
    cases rest with
    | nil => rfl
    | cons c rest =>
      have other : isSuffix c = false := by
        apply Bool.eq_false_iff.mpr
        intro suffix
        have plain := (ends c rfl).2
        simp only [isSuffix, Bool.or_eq_true, beq_iff_eq] at suffix
        rcases suffix with ((rfl | rfl) | rfl) | rfl <;> cases plain
      simp [readSuffix, other]

theorem suffix_starts {c : Char} (known : isSuffix c = true) :
    Text.isNumeric c = false ∧ ¬(c = 'e' ∨ c = 'E') := by
  simp only [isSuffix, Bool.or_eq_true, beq_iff_eq] at known
  rcases known with ((rfl | rfl) | rfl) | rfl <;> decide

private theorem suffix_follows {suffix : Option Char} (known : suffix.all isSuffix = true)
    {rest : List Char} (ends : Text.Ends rest) :
    Text.Unnumeric (suffix.toList ++ rest) ∧
      ∀ c ∈ (suffix.toList ++ rest).head?, ¬(c = 'e' ∨ c = 'E') := by
  cases suffix with
  | none =>
    refine ⟨ends.unnumeric, fun c found marked => ?_⟩
    have plain := (ends c found).2
    rcases marked with rfl | rfl <;> cases plain
  | some c =>
    have starts := suffix_starts (by simpa using known)
    constructor
    · intro d found
      obtain rfl : c = d := by simpa using found
      exact starts.1
    · intro d found
      obtain rfl : c = d := by simpa using found
      exact starts.2

private theorem exponent_follows {exponent : Option Exponent}
    (known : exponent.all exponentWellFormed = true) {back : List Char}
    (stops : Text.Unnumeric back) :
    Text.Unnumeric ((exponent.map Exponent.text).getD [] ++ back) := by
  cases exponent with
  | none => exact stops
  | some exponent =>
    intro c found
    obtain rfl : exponent.mark = c := by simpa [Exponent.text] using found
    simp only [Option.all_some, exponentWellFormed, Bool.and_eq_true, Bool.or_eq_true,
      beq_iff_eq] at known
    rcases known.1.1.1 with marked | marked
    · rw [marked]
      decide
    · rw [marked]
      decide

theorem fraction_follows (fraction : Option (List Char)) {back : List Char}
    (stops : Text.Unnumeric back) :
    ∀ c ∈ ((fraction.map ('.' :: ·)).getD [] ++ back).head?, c.isDigit = false := by
  cases fraction with
  | none =>
    intro c found
    have other := stops c found
    simp only [Text.isNumeric, Bool.or_eq_false_iff] at other
    exact other.1
  | some digits =>
    intro c found
    obtain rfl : '.' = c := by simpa using found
    decide

theorem read_exponent {exponent : Option Exponent}
    (known : exponent.all exponentWellFormed = true) {back : List Char}
    (stops : Text.Unnumeric back) (unmarked : ∀ c ∈ back.head?, ¬(c = 'e' ∨ c = 'E')) :
    Exponent.read ((exponent.map Exponent.text).getD [] ++ back) = (exponent, back) := by
  cases exponent with
  | none =>
    cases back with
    | nil => rfl
    | cons c back => simp only [Option.map_none, Option.getD_none, List.nil_append, Exponent.read,
        unmarked c rfl, if_false]
  | some exponent =>
    obtain ⟨mark, sign, digits⟩ := exponent
    simp only [Option.all_some, exponentWellFormed, Bool.and_eq_true, Bool.or_eq_true, beq_iff_eq,
      Bool.not_eq_true'] at known
    obtain ⟨⟨⟨marked, signed⟩, more⟩, all⟩ := known
    have span := Text.digits_append all stops
    cases sign with
    | some sign =>
      simp only [Option.all_some, Bool.or_eq_true, beq_iff_eq] at signed
      rcases signed with rfl | rfl
      · simp [Exponent.text, Exponent.read, marked, span]
      · simp [Exponent.text, Exponent.read, marked, span]
    | none =>
      cases digits with
      | nil => simp at more
      | cons d digits =>
        have digit : d.isDigit = true := by
          simp only [List.all_cons, Bool.and_eq_true] at all
          exact all.1
        obtain ⟨plus, minus⟩ := ne_sign_of_isDigit digit
        simp only [List.cons_append] at span
        simp [Exponent.text, Exponent.read, marked, span, plus, minus]

private theorem detachesPoint_digits {digits back : List Char}
    (all : digits.all Char.isDigit = true)
    (stops : Text.Unnumeric back) : detachesPoint (digits ++ back) = false := by
  cases digits with
  | cons d digits =>
    simp only [List.all_cons, Bool.and_eq_true] at all
    exact detachesPoint_digit all.1 _
  | nil =>
    cases back with
    | nil => rfl
    | cons c back =>
      have other := stops c rfl
      simp only [Text.isNumeric, List.mem_cons, List.not_mem_nil, or_false, Bool.or_eq_false_iff,
        decide_eq_false_iff_not, not_or] at other
      obtain ⟨-, point, caret, star, slash, backslash, quote⟩ := other
      simp [detachesPoint, point, caret, star, slash, backslash, quote]

theorem readFraction_fraction {fraction : Option (List Char)}
    (known : fraction.all (·.all Char.isDigit) = true) {back : List Char}
    (stops : Text.Unnumeric back) :
    readFraction ((fraction.map ('.' :: ·)).getD [] ++ back) = (fraction, back) := by
  cases fraction with
  | some digits =>
    have all : digits.all Char.isDigit = true := by simpa using known
    have span := Text.digits_append all stops
    simp [readFraction, detachesPoint_digits all stops, span]
  | none =>
    cases back with
    | nil => rfl
    | cons c back =>
      have point : c ≠ '.' := by
        rintro rfl
        exact absurd (stops '.' rfl) (by decide)
      simp [readFraction, point]

theorem not_isIncomplete {numeral : Numeral} (known : numeral.isWellFormed = true) :
    numeral.isIncomplete = false := by
  simp only [isWellFormed, Bool.and_eq_true] at known
  obtain ⟨⟨-, powered⟩, -⟩ := known
  rw [isIncomplete]
  cases exponent : numeral.exponent with
  | none => rfl
  | some exponent =>
    simp only [exponent, Option.all_some, exponentWellFormed, Bool.and_eq_true, Bool.not_eq_true']
      at powered
    exact powered.1.2

theorem text_starts {numeral : Numeral} (known : numeral.isWellFormed = true) :
    ∃ c rest, numeral.text = c :: rest ∧
      (c.isDigit = true ∨ c = '.' ∧ ∃ d after, rest = d :: after ∧ d.isDigit = true) := by
  obtain ⟨whole, fraction, exponent, suffix⟩ := numeral
  simp only [isWellFormed, Bool.and_eq_true] at known
  obtain ⟨⟨⟨⟨wholeDigits, fractionDigits⟩, some⟩, -⟩, -⟩ := known
  cases whole with
  | cons c whole =>
    simp only [List.all_cons, Bool.and_eq_true] at wholeDigits
    exact ⟨c, _, rfl, Or.inl wholeDigits.1⟩
  | nil =>
    cases fraction with
    | none => simp at some
    | some digits =>
      cases digits with
      | nil => simp at some
      | cons d digits =>
        simp only [Option.all_some, List.all_cons, Bool.and_eq_true] at fractionDigits
        exact ⟨'.', _, rfl, Or.inr ⟨rfl, d, _, rfl, fractionDigits.1⟩⟩

theorem read_text {numeral : Numeral} (known : numeral.isWellFormed = true) {rest : List Char}
    (ends : Text.Ends rest) : read (numeral.text ++ rest) = (numeral, rest) := by
  obtain ⟨whole, fraction, exponent, suffix⟩ := numeral
  have parts := known
  simp only [isWellFormed, Bool.and_eq_true] at parts
  obtain ⟨⟨⟨⟨wholeDigits, fractionDigits⟩, -⟩, powered⟩, suffixed⟩ := parts
  obtain ⟨afterPower, unmarked⟩ := suffix_follows suffixed ends
  have afterFraction := exponent_follows powered afterPower
  have afterWhole := fraction_follows fraction afterFraction
  have span := Text.span_append wholeDigits afterWhole
  have complete : (exponent.any fun exponent => exponent.digits.isEmpty) = false :=
    not_isIncomplete known
  simp only [text, List.append_assoc, read, span,
    readFraction_fraction fractionDigits afterFraction,
    read_exponent powered afterPower unmarked, isIncomplete, complete,
    readSuffix_suffix suffixed ends]
  rfl

end Numeral

/-! The text that the scanner takes has the value of the numeral. -/

private theorem digits_again (text : List Char) :
    (text.takeWhile Char.isDigit).takeWhile Char.isDigit = text.takeWhile Char.isDigit ∧
      (text.takeWhile Char.isDigit).dropWhile Char.isDigit = [] := by
  have nothing : Text.Unnumeric [] := by simp [Text.Unnumeric]
  have all : (text.takeWhile Char.isDigit).all Char.isDigit = true := List.all_takeWhile
  have span := Text.digits_append all nothing
  rwa [List.append_nil] at span

private theorem Exponent.read_text {text after : List Char} {exponent : Exponent}
    (found : Exponent.read text = (some exponent, after)) :
    (exponent.mark = 'e' ∨ exponent.mark = 'E') ∧
      Exponent.read exponent.text = (some exponent, []) := by
  revert found
  fun_cases Exponent.read text
  case case1 c marked later =>
    rintro ⟨⟩
    simp [Exponent.text, Exponent.read, marked, digits_again]
  case case2 c marked later =>
    rintro ⟨⟩
    simp [Exponent.text, Exponent.read, marked, digits_again]
  case case3 c marked later notPlus notMinus =>
    rintro ⟨⟩
    refine ⟨marked, ?_⟩
    obtain ⟨taken, left⟩ := digits_again later
    cases digits : later.takeWhile Char.isDigit with
    | nil => simp [Exponent.text, Exponent.read, marked]
    | cons d back =>
      have digit : d.isDigit = true := by
        have all : (later.takeWhile Char.isDigit).all Char.isDigit = true := List.all_takeWhile
        rw [digits, List.all_cons, Bool.and_eq_true] at all
        exact all.1
      obtain ⟨plus, minus⟩ := Numeral.ne_sign_of_isDigit digit
      rw [digits] at taken left
      simp [Exponent.text, Exponent.read, marked, plus, minus, taken, left]
  case case4 => rintro ⟨⟩
  case case5 => rintro ⟨⟩

namespace Numeral

private theorem read_stem (text : List Char) :
    read (read text).1.stem = ({ (read text).1 with suffix := none }, []) := by
  obtain ⟨fraction, afterFraction, fractioned⟩ : ∃ fraction after,
      readFraction (text.dropWhile Char.isDigit) = (fraction, after) := ⟨_, _, rfl⟩
  obtain ⟨exponent, after, powered⟩ : ∃ exponent after,
      Exponent.read afterFraction = (exponent, after) := ⟨_, _, rfl⟩
  have parts : { (read text).1 with suffix := none } =
      (⟨text.takeWhile Char.isDigit, fraction, exponent, none⟩ : Numeral) := by
    simp only [read, fractioned, powered]
    split <;> rfl
  have digits : fraction.all (·.all Char.isDigit) = true := by
    have all : (readFraction (text.dropWhile Char.isDigit)).1.all (·.all Char.isDigit) = true := by
      fun_cases readFraction (text.dropWhile Char.isDigit) <;> simp
    rwa [fractioned] at all
  have again : Exponent.read ((exponent.map Exponent.text).getD []) = (exponent, []) ∧
      Text.Unnumeric ((exponent.map Exponent.text).getD []) := by
    cases exponent with
    | none => exact ⟨rfl, by simp [Text.Unnumeric]⟩
    | some exponent =>
      obtain ⟨marked, again⟩ := Exponent.read_text powered
      refine ⟨again, fun c front => ?_⟩
      obtain rfl : exponent.mark = c := by simpa [Exponent.text] using front
      rcases marked with marked | marked <;> rw [marked] <;> decide
  have wholeDigits : (text.takeWhile Char.isDigit).all Char.isDigit = true := List.all_takeWhile
  have span := Text.span_append wholeDigits (fraction_follows fraction again.2)
  have same : (read text).1.stem =
      stem ⟨text.takeWhile Char.isDigit, fraction, exponent, none⟩ := by
    rw [← parts]
    rfl
  rw [parts, same, stem, List.append_assoc, read, span.1, span.2,
    readFraction_fraction digits again.2]
  simp only [again.1, readSuffix]
  split <;> rfl

private theorem suffix_of_isIncomplete (text : List Char)
    (lacking : (read text).1.isIncomplete = true) :
    (read text).1.suffix = none := by
  revert lacking
  simp only [read]
  split
  · exact fun _ => rfl
  · rename_i complete
    exact fun lacking => absurd lacking complete

private theorem parse?_stem (text : List Char) :
    parse? (read text).1.stem = (read text).1.value? := by
  rw [parse?, read_stem]
  rfl

end Numeral

def Lexeme.ofRead (read : Numeral × List Char) : Lexeme × List Char :=
  let value := read.1.value?.map fun x =>
    if read.1.suffix.isSome then Value.imaginary x else Value.number x
  let problem :=
    if read.1.isIncomplete then
      some ⟨.unexpectedCharacterInNumber (read.2.headD '\x00'),
        Range.ofLength (Text.byteSize read.1.text) (Text.byteSize (read.2.take 1))⟩
    else none
  (⟨.numberLiteral, read.1.text, value, problem⟩, read.2)

/-- Where a number starts, the lexeme is that of the numeral that is read. -/
theorem Lexeme.number_eq {c : Char} {after : List Char}
    (starts : (c.isDigit || (c == '.' && after.head?.any Char.isDigit)) = true) :
    number (c :: after) = ofRead (Numeral.read (c :: after)) := by
  have value := Numeral.parse?_stem (c :: after)
  have unsuffixed := Numeral.suffix_of_isIncomplete (c :: after)
  simp only [number, ofScan, Numeral.run_start starts, value, ofRead]
  generalize Numeral.read (c :: after) = read at unsuffixed
  obtain ⟨numeral, rest⟩ := read
  by_cases lacking : numeral.isIncomplete = true
  · have suffix : numeral.suffix = none := unsuffixed lacking
    have text : numeral.text = numeral.stem := by simp [Numeral.text, Numeral.stem, suffix]
    simp [Numeral.ending, lacking, text, suffix, Numeral.Ending.suffix]
  · cases suffix : numeral.suffix with
    | none =>
      have text : numeral.text = numeral.stem := by simp [Numeral.text, Numeral.stem, suffix]
      simp [Numeral.ending, lacking, text, suffix, Numeral.Ending.suffix]
    | some c =>
      have text : numeral.text = numeral.stem ++ [c] := by
        simp [Numeral.text, Numeral.stem, suffix]
      simp [Numeral.ending, lacking, text, suffix, Numeral.Ending.suffix]

end MatrixScript
