/-! # Binary floating point numbers of 64 bits

The non-negative finite numbers are `mantissa * 2 ^ exponent` with a mantissa of at
most 53 bits and an exponent from -1074 to 971.  `ofRatio` rounds a quotient of
natural numbers to the nearest of them, a tie going to the even mantissa; products
and quotients are rounded in the same way.  A result too large for the exponent is
no number.
-/

namespace SignatureAutomata
namespace Decimal

/-- **A non-negative finite binary floating point number**, `mantissa * 2 ^ exponent`.
The mantissa has 53 bits, or fewer if the exponent is the least one. -/
structure Binary64 where
  mantissa : Nat
  exponent : Int
  deriving DecidableEq

/-- The integer nearest to `num / den`, a tie going to the even one. -/
def roundHalfEven (num den : Nat) : Nat :=
  let floor := num / den
  match compare (2 * (num % den)) den with
  | .lt => floor
  | .eq => floor + floor % 2
  | .gt => floor + 1

namespace Binary64

def zero : Binary64 := ⟨0, -1074⟩

/-- `num / den` in units of `2 ^ exponent`, as a quotient. -/
def inUnits (num den : Nat) (exponent : Int) : Nat × Nat :=
  (num * Nat.pow 2 (-exponent).toNat, den * Nat.pow 2 exponent.toNat)

/-- The exponent with which `num / den` has a mantissa of 53 bits, or else the least
one. -/
def exponentFor (num den : Nat) : Int :=
  let guess : Int := (num.log2 : Int) - den.log2 - 53
  let (n, d) := inUnits num den guess
  max (-1074) (if n < Nat.pow 2 53 * d then guess else guess + 1)

/-- **The number nearest to `num / den`**, unless that is too large. -/
def ofRatio (num den : Nat) : Option Binary64 :=
  if num = 0 then some zero
  else
    let exponent := exponentFor num den
    let (n, d) := inUnits num den exponent
    let mantissa := roundHalfEven n d
    let x : Binary64 :=
      if mantissa = Nat.pow 2 53 then ⟨Nat.pow 2 52, exponent + 1⟩ else ⟨mantissa, exponent⟩
    if x.exponent ≤ 971 then some x else none

/-- The number as a quotient: its numerator. -/
def num (x : Binary64) : Nat := x.mantissa * Nat.pow 2 x.exponent.toNat

/-- The number as a quotient: its denominator. -/
def den (x : Binary64) : Nat := Nat.pow 2 (-x.exponent).toNat

/-- The rounded product. -/
def mul (x y : Binary64) : Option Binary64 := ofRatio (x.num * y.num) (x.den * y.den)

/-- The rounded quotient. -/
def div (x y : Binary64) : Option Binary64 := ofRatio (x.num * y.den) (x.den * y.num)

/-- The number nearest to `significand * 10 ^ exponent` as far as two roundings give
it: the significand and a power of ten are rounded, and then their product or
quotient.  Powers up to the 308th are numbers; a smaller exponent is taken in two
such steps, and a greater one leaves nothing but zero in range. -/
def ofScientific (significand : Nat) (exponent : Int) : Option Binary64 := do
  let s ← ofRatio significand 1
  if exponent < -308 then
    let t ← s.div (← ofRatio (Nat.pow 10 308) 1)
    t.div (← ofRatio (Nat.pow 10 (min 308 (-exponent - 308).toNat)) 1)
  else if exponent < 0 then s.div (← ofRatio (Nat.pow 10 (-exponent).toNat) 1)
  else if exponent ≤ 308 then s.mul (← ofRatio (Nat.pow 10 exponent.toNat) 1)
  else if significand = 0 then some zero
  else none

example : ofRatio 1 10 = some ⟨7205759403792794, -56⟩ := by decide +kernel
example : ofRatio (Nat.pow 2 53 + 1) 1 = some ⟨Nat.pow 2 52, 1⟩ := by decide +kernel
example : ofRatio (Nat.pow 2 1024) 1 = none := by decide +kernel
example : ofScientific 3 (-324) = some ⟨1, -1074⟩ := by decide +kernel

end Binary64
end Decimal
end SignatureAutomata
