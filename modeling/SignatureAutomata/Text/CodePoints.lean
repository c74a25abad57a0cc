/-! # Ranges of code points

A property of characters is given as the ranges of code points that have it, both
ends included, ascending and apart (`IsAscending`).
-/

namespace SignatureAutomata
namespace Text

/-- Ranges of code points, both ends included. -/
abbrev CodePoints := List (Nat × Nat)

/-- Whether a character lies in one of the ranges. -/
def CodePoints.contains (ranges : CodePoints) (c : Char) : Bool :=
  ranges.any fun (first, last) => first ≤ c.toNat && c.toNat ≤ last

/-- Whether every range ends before the next begins. -/
def CodePoints.isAscending : CodePoints → Bool
  | [] => true
  | [(first, last)] => first ≤ last
  | (first, last) :: (first', last') :: ranges =>
      first ≤ last && last < first' && CodePoints.isAscending ((first', last') :: ranges)

end Text
end SignatureAutomata
