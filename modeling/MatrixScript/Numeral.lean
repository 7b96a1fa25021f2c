import MatrixScript.Double

/-!
Number literals: digits with an optional point, an optional exponent and an optional imaginary
suffix.

`Numeral.run` scans the longest numeral at the front of a text, one character after the other. A
point after whole digits belongs to the numeral unless it starts a dotted operator or a
continuation, and an exponent mark always does, even when no digits follow; such a numeral has no
value. `Numeral.read` takes the same numeral apart at once, and so gives its value.
-/

set_option autoImplicit false

namespace MatrixScript

/-- `e` or `E`, an optional sign, and digits. -/
structure Exponent where
  mark : Char
  sign : Option Char
  digits : List Char
  deriving DecidableEq, Repr

namespace Exponent

def text (exponent : Exponent) : List Char :=
  exponent.mark :: (exponent.sign.toList ++ exponent.digits)

def natural (digits : List Char) : Nat :=
  digits.foldl (fun total c => 10 * total + (c.toNat - '0'.toNat)) 0

def power? (exponent : Exponent) : Option Int :=
  if exponent.digits.isEmpty then none
  else
    let size : Int := natural exponent.digits
    some (if exponent.sign = some '-' then -size else size)

/-- The exponent at the front of a text, and the rest. -/
def read : List Char → Option Exponent × List Char
  | c :: rest =>
    if c = 'e' ∨ c = 'E' then
      match rest with
      | '+' :: after =>
        (some ⟨c, some '+', after.takeWhile Char.isDigit⟩, after.dropWhile Char.isDigit)
      | '-' :: after =>
        (some ⟨c, some '-', after.takeWhile Char.isDigit⟩, after.dropWhile Char.isDigit)
      | after => (some ⟨c, none, after.takeWhile Char.isDigit⟩, after.dropWhile Char.isDigit)
    else (none, c :: rest)
  | [] => (none, [])

theorem read_append (text : List Char) :
    ((read text).1.map Exponent.text).getD [] ++ (read text).2 = text := by
  fun_cases read text <;> simp_all [Exponent.text, List.takeWhile_append_dropWhile]

end Exponent

/-- A number literal by its parts. -/
structure Numeral where
  whole : List Char
  /-- The digits after the point, if there is a point. -/
  fraction : Option (List Char)
  exponent : Option Exponent
  suffix : Option Char
  deriving DecidableEq, Repr

namespace Numeral

def text (numeral : Numeral) : List Char :=
  numeral.whole ++ (numeral.fraction.map ('.' :: ·)).getD [] ++
    (numeral.exponent.map Exponent.text).getD [] ++ numeral.suffix.toList

/-- Whether the exponent mark stands without digits. -/
def isIncomplete (numeral : Numeral) : Bool :=
  numeral.exponent.any (·.digits.isEmpty)

/-- The nearest double, unless the exponent is incomplete. -/
def value? (numeral : Numeral) : Option Double :=
  let fraction := numeral.fraction.getD []
  let power? := (numeral.exponent.map Exponent.power?).getD (some 0)
  power?.map fun power =>
    Double.ofDecimal (Exponent.natural (numeral.whole ++ fraction)) (power - fraction.length)

/-- Whether what follows a point makes the point part of an operator or of a continuation. -/
def detachesPoint : List Char → Bool
  | '.' :: '.' :: _ => true
  | c :: _ => c == '^' || c == '*' || c == '/' || c == '\\' || c == '\''
  | [] => false

/-- A point with its digits at the front of a text, and the rest. -/
def readFraction : List Char → Option (List Char) × List Char
  | '.' :: rest =>
    if detachesPoint rest then (none, '.' :: rest)
    else (some (rest.takeWhile Char.isDigit), rest.dropWhile Char.isDigit)
  | text => (none, text)

theorem readFraction_append (text : List Char) :
    ((readFraction text).1.map ('.' :: ·)).getD [] ++ (readFraction text).2 = text := by
  fun_cases readFraction text <;> simp_all [List.takeWhile_append_dropWhile]

def isSuffix (c : Char) : Bool := c == 'i' || c == 'j' || c == 'I' || c == 'J'

/-- An imaginary suffix at the front of a text, and the rest. -/
def readSuffix : List Char → Option Char × List Char
  | c :: rest => if isSuffix c then (some c, rest) else (none, c :: rest)
  | [] => (none, [])

theorem readSuffix_append (text : List Char) :
    (readSuffix text).1.toList ++ (readSuffix text).2 = text := by
  fun_cases readSuffix text <;> simp_all

/-- The numeral at the front of a text, and the rest. -/
def read (text : List Char) : Numeral × List Char :=
  let (fraction, afterFraction) := readFraction (text.dropWhile Char.isDigit)
  let (exponent, afterExponent) := Exponent.read afterFraction
  let numeral : Numeral := ⟨text.takeWhile Char.isDigit, fraction, exponent, none⟩
  if numeral.isIncomplete then (numeral, afterExponent)
  else
    let (suffix, rest) := readSuffix afterExponent
    ({ numeral with suffix := suffix }, rest)

theorem read_append (text : List Char) : (read text).1.text ++ (read text).2 = text := by
  have digits := @List.takeWhile_append_dropWhile _ Char.isDigit text
  have fraction := readFraction_append (text.dropWhile Char.isDigit)
  have exponent := Exponent.read_append (readFraction (text.dropWhile Char.isDigit)).2
  have suffix := readSuffix_append
    (Exponent.read (readFraction (text.dropWhile Char.isDigit)).2).2
  simp only [read, Numeral.text]
  split <;> simp_all

/-- The nearest double to a decimal text. Refused for any other text, such as one with an exponent
that lacks its digits. -/
def parse? (text : List Char) : Option Double :=
  let (numeral, rest) := read text
  if rest.isEmpty && numeral.suffix.isNone then numeral.value? else none

/-! Scanning. Each character moves the scanner on, or ends the number. -/

/-- How far a number is scanned. -/
inductive Stage where
  | start
  /-- Digits, and no point yet. -/
  | whole
  | point
  /-- Digits after the point. -/
  | fraction
  | mark
  | sign
  /-- Digits of the exponent. -/
  | power
  deriving DecidableEq, Repr

/-- What a scanner does at a character. -/
inductive Move where
  | take (next : Stage)
  /-- The number ends in front of the character. -/
  | stop
  /-- The number ends with the character, its imaginary suffix. -/
  | suffix
  deriving DecidableEq, Repr

/-- The move at a character that does not go on with the digits. -/
def close (c : Char) : Move := if isSuffix c then .suffix else .stop

/-- The move at a character with the text `after` behind it. -/
def step : Stage → (c : Char) → (after : List Char) → Move
  | .start, c, _ =>
    if c.isDigit then .take .whole else if c = '.' then .take .point else close c
  | .whole, c, after =>
    if c.isDigit then .take .whole
    else if c = '.' then if detachesPoint after then .stop else .take .point
    else if c = 'e' ∨ c = 'E' then .take .mark
    else close c
  | .point, c, _ | .fraction, c, _ =>
    if c.isDigit then .take .fraction else if c = 'e' ∨ c = 'E' then .take .mark else close c
  | .mark, c, _ =>
    if c.isDigit then .take .power else if c = '+' ∨ c = '-' then .take .sign else .stop
  | .sign, c, _ => if c.isDigit then .take .power else .stop
  | .power, c, _ => if c.isDigit then .take .power else close c

/-- How a number ends. -/
inductive Ending where
  | plain
  /-- Without the digits of its exponent. -/
  | lacking
  | imaginary (suffix : Char)
  deriving DecidableEq, Repr

def Ending.suffix : Ending → List Char
  | .imaginary c => [c]
  | .plain | .lacking => []

/-- How a number ends that goes no further than a stage. -/
def Stage.ending : Stage → Ending
  | .mark | .sign => .lacking
  | .start | .whole | .point | .fraction | .power => .plain

/-- A number that is scanned: its text without the suffix, how it ends, and the text left. -/
structure Scan where
  taken : List Char
  ending : Ending
  rest : List Char
  deriving DecidableEq, Repr

def Scan.push (scan : Scan) (text : List Char) : Scan := { scan with taken := text ++ scan.taken }

/-- The number at the front of a text, from a stage on. -/
def run (stage : Stage) : List Char → Scan
  | [] => ⟨[], stage.ending, []⟩
  | c :: after =>
    match step stage c after with
    | .take next => (run next after).push [c]
    | .stop => ⟨[], stage.ending, c :: after⟩
    | .suffix => ⟨[], .imaginary c, after⟩

section Run

variable {stage next : Stage} {c : Char} {after : List Char}

theorem run_of_take (move : step stage c after = .take next) :
    run stage (c :: after) = (run next after).push [c] := by
  rw [run, move]

theorem run_of_stop (move : step stage c after = .stop) :
    run stage (c :: after) = ⟨[], stage.ending, c :: after⟩ := by
  rw [run, move]

theorem run_of_suffix (move : step stage c after = .suffix) :
    run stage (c :: after) = ⟨[], .imaginary c, after⟩ := by
  rw [run, move]

end Run

theorem run_append (stage : Stage) (text : List Char) :
    (run stage text).taken ++ ((run stage text).ending.suffix ++ (run stage text).rest) = text := by
  have silent : stage.ending.suffix = [] := by cases stage <;> rfl
  induction text generalizing stage with
  | nil => simp [run, silent]
  | cons c after ih =>
    cases move : step stage c after with
    | take next =>
      have later := ih next (by cases next <;> rfl)
      simp [run_of_take move, Scan.push, later]
    | stop => simp [run_of_stop move, silent]
    | suffix => simp [run_of_suffix move, Ending.suffix]

theorem run_taken_ne_nil {c : Char} {after : List Char}
    (h : (c.isDigit || (c == '.' && after.head?.any Char.isDigit)) = true) :
    (run .start (c :: after)).taken ≠ [] := by
  have taken : ∃ next, step .start c after = .take next := by
    by_cases digit : c.isDigit
    · exact ⟨.whole, by simp [step, digit]⟩
    · simp only [digit, Bool.false_or, Bool.and_eq_true, beq_iff_eq] at h
      exact ⟨.point, by simp [step, h.1]⟩
  obtain ⟨next, move⟩ := taken
  simp [run_of_take move, Scan.push]

theorem detachesPoint_digit {d : Char} (h : d.isDigit) (rest : List Char) :
    detachesPoint (d :: rest) = false := by
  have differs : ∀ c : Char, c.isDigit = false → d ≠ c := by
    rintro c hc rfl
    simp [h] at hc
  simp [detachesPoint, differs]

end Numeral

end MatrixScript
