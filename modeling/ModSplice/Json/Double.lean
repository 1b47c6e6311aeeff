/-!
The size of decimals in double precision. A decimal becomes a double in three steps: of its digits
the leading ones that make a number of 64 bits are kept, this number is rounded to 53 binary digits,
and the product with the power of ten, which is rounded likewise, is rounded once more. Near the
largest double the steps can go another way than one rounding of the exact value would.
-/
namespace ModSplice.Json

/-- A number over a power of two, rounded to the nearest whole number, a tie to the even one. -/
def roundShift (n shift : Nat) : Nat :=
  let unit := 1 <<< shift
  let quotient := n / unit
  let rest := n % unit
  if unit < 2 * rest || (2 * rest == unit && quotient % 2 == 1) then quotient + 1 else quotient

/-- A number rounded to 53 binary digits. -/
def toDouble (n : Nat) : Nat :=
  let shift := n.log2 + 1 - 53
  roundShift n shift <<< shift

/-- The leading digits of a decimal that make a number of 64 bits, with the power of ten adjusted
to the digits dropped. -/
def leading (mantissa : Nat) (exponent : Int) : Nat × Int :=
  if mantissa < UInt64.size then (mantissa, exponent) else leading (mantissa / 10) (exponent + 1)
termination_by mantissa
decreasing_by simp only [UInt64.size] at *; omega

/-- The largest power of ten that is a double has this exponent. -/
def maxExponent : Int := 308

def isFinite (mantissa : Nat) (exponent : Int) : Bool :=
  let (digits, power) := leading mantissa exponent
  if digits == 0 || power < 0 then true
  else if maxExponent < power then false
  else toDouble (toDouble digits * toDouble (Nat.pow 10 power.toNat)) < 1 <<< 1024

end ModSplice.Json
