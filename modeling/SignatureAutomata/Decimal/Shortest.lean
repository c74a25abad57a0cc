import SignatureAutomata.Decimal.Binary64
import SignatureAutomata.Decimal.Integer

/-! # Floating point numbers as decimal text

A floating point number is written with the fewest digits that read back to it, and
of the decimals with as many digits the nearest is chosen.  The decimals that read
back lie between halfway to the neighbour below and halfway to the neighbour above,
ends included if the mantissa is even.  All comparisons are exact.

The digits are laid out positionally if the first of them stands for a multiple of
`10 ^ -5`, of `10 ^ 15` or of a power between, and otherwise with an exponent.
-/

namespace SignatureAutomata
namespace Decimal

/-- Compares `a * 2 ^ p` with `b * 10 ^ q`. -/
def compareScaled (a : Nat) (p : Int) (b : Nat) (q : Int) : Ordering :=
  compare (a * Nat.pow 2 p.toNat * Nat.pow 10 (-q).toNat)
    (b * Nat.pow 10 q.toNat * Nat.pow 2 (-p).toNat)

namespace Binary64

/-- Whether `b * 10 ^ q` reads back to a number.  The neighbour below is nearer than
the one above where the exponent changes. -/
def readsBack (x : Binary64) (b : Nat) (q : Int) : Bool :=
  let below := if x.mantissa = Nat.pow 2 52 ∧ -1074 < x.exponent then 1 else 2
  let lower := compareScaled (4 * x.mantissa - below) (x.exponent - 2) b q
  let upper := compareScaled (4 * x.mantissa + 2) (x.exponent - 2) b q
  if x.mantissa % 2 = 0 then lower.isLE && upper.isGE else lower.isLT && upper.isGT

/-- The least `k` with `x < 10 ^ k`, for a number other than zero. -/
def magnitude (x : Binary64) : Int :=
  if x.den ≤ x.num then (digits (x.num / x.den)).length
  else 1 - ((digits ((x.den - 1) / x.num)).length : Int)

/-- The multiple of `10 ^ q` nearest to a number among those that read back to it, of
the two that enclose it.  A tie goes to the even multiple. -/
def nearestMultiple (x : Binary64) (q : Int) : Option Nat :=
  let floor := x.num * Nat.pow 10 (-q).toNat / (x.den * Nat.pow 10 q.toNat)
  match x.readsBack floor q, x.readsBack (floor + 1) q with
  | true, false => some floor
  | false, true => some (floor + 1)
  | true, true =>
      match compareScaled (2 * x.mantissa) x.exponent (2 * floor + 1) q with
      | .lt => some floor
      | .eq => some (floor + floor % 2)
      | .gt => some (floor + 1)
  | false, false => none

/-- The number itself as a multiple of a power of ten. -/
def exact (x : Binary64) : Nat × Int :=
  if x.exponent < 0 then (x.mantissa * Nat.pow 5 (-x.exponent).toNat, x.exponent) else (x.num, 0)

/-- **The shortest decimal that reads back** to a number other than zero, as a
multiple of a power of ten.  Seventeen digits are enough. -/
def shortest (x : Binary64) : Nat × Int :=
  ((List.range' 1 17).findSome? fun (count : Nat) =>
    let q := x.magnitude - count
    (x.nearestMultiple q).map (·, q)).getD x.exact

/-- The least place of the first digit with which a number is laid out positionally. -/
def leastPositional : Int := -5

/-- The greatest such place. -/
def greatestPositional : Int := 15

/-- Digits laid out positionally, the first of them standing for a multiple of
`10 ^ place`.  At least one digit stands on either side of the point. -/
def positional (ds : List Char) (place : Int) : List Char :=
  if place < 0 then '0' :: '.' :: List.replicate (-place - 1).toNat '0' ++ ds
  else
    let count := place.toNat + 1
    ds.take count ++ List.replicate (count - ds.length) '0' ++ '.' ::
      (if ds.length ≤ count then ['0'] else ds.drop count)

/-- Digits laid out with an exponent, which always has a sign. -/
def scientific (ds : List Char) (place : Int) : List Char :=
  ds.take 1 ++ (if ds.length ≤ 1 then [] else '.' :: ds.drop 1)
    ++ ['e', if place < 0 then '-' else '+'] ++ digits place.natAbs

/-- **The text of a number.** -/
def text (x : Binary64) : List Char :=
  if x.mantissa = 0 then ['0', '.', '0']
  else
    let (multiple, q) := x.shortest
    let all := digits multiple
    let place := all.length + q - 1
    let ds := (all.reverse.dropWhile (· = '0')).reverse
    if leastPositional ≤ place ∧ place ≤ greatestPositional then positional ds place
    else scientific ds place

example : text ⟨7205759403792794, -56⟩ = "0.1".toList := by decide +kernel
example : text ⟨1, -1074⟩ = "5e-324".toList := by decide +kernel
example : text ⟨Nat.pow 2 52, 12⟩ = "1.8446744073709552e+19".toList := by decide +kernel
example : text ⟨1125899906842624 * 4 + 1, -2⟩ = "1125899906842624.2".toList := by
  decide +kernel

end Binary64
end Decimal
end SignatureAutomata
