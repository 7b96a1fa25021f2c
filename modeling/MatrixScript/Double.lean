/-!
Double-precision numbers by their bit patterns, and the double nearest to a decimal.

A decimal `digits · 10 ^ exponent` is a quotient of naturals. `ofQuotient` scales it so that the
integer part has 53 bits, or fewer below the least normal number, and rounds that part to nearest,
ties to even; no step is approximate.
-/

set_option autoImplicit false

namespace MatrixScript

/-- A double, as its sixty-four bits. -/
structure Double where
  bits : UInt64
  deriving DecidableEq, Repr, Inhabited

namespace Double

def infinity : Double := ⟨0x7FF0000000000000⟩

def magnitude (x : Double) : Nat := x.bits.toNat % Nat.pow 2 63

def isNaN (x : Double) : Bool := infinity.magnitude < x.magnitude

/-- Numeric equality: no NaN equals anything, and the two zeros are equal. -/
def same (x y : Double) : Bool :=
  !x.isNaN && !y.isNaN && (x.bits == y.bits || (x.magnitude == 0 && y.magnitude == 0))

/-- The quotient rounded to the nearest natural, a tie to the even one. -/
def roundQuotient (num den : Nat) : Nat :=
  let floor := num / den
  let twice := 2 * (num % den)
  if den < twice ∨ (den = twice ∧ floor % 2 = 1) then floor + 1 else floor

/-- `num / den` divided by `2 ^ power`, as a quotient of naturals. -/
def scale (num den : Nat) (power : Int) : Nat × Nat :=
  (num * Nat.pow 2 (-power).toNat, den * Nat.pow 2 power.toNat)

/-- The power of two by which `num / den` is divided before it is rounded. -/
def unitPower (num den : Nat) : Int :=
  let guess := max (-1074) ((num.log2 : Int) - den.log2 - 53)
  let (n, d) := scale num den guess
  if n / d < Nat.pow 2 53 then guess else guess + 1

def ofQuotient (num den : Nat) : Double :=
  let power := unitPower num den
  let (n, d) := scale num den power
  let bits := (power + 1074).toNat * Nat.pow 2 52 + roundQuotient n d
  if bits < infinity.magnitude then ⟨bits.toUInt64⟩ else infinity

/-- The double nearest to `digits · 10 ^ exponent`. Beyond 310 places before the point every
decimal is infinite, beyond 330 zeros after it every one is zero. -/
def ofDecimal (digits : Nat) (exponent : Int) : Double :=
  let places := (Nat.toDigits 10 digits).length + exponent
  if digits = 0 ∨ places < -330 then ⟨0⟩
  else if 310 < places then infinity
  else ofQuotient (digits * Nat.pow 10 exponent.toNat) (Nat.pow 10 (-exponent).toNat)

end Double

end MatrixScript
