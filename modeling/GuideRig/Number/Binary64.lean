/-
# GuideRig.Number.Binary64 -- doubles as exact multiples of the smallest one

Every finite double that is not negative is a multiple of `2^-1074`, so this module holds one by
that multiple and computes in natural numbers. `round` brings a fraction of such units to the
nearest value with 53 significant bits, a tie going to the even one; sum, product and quotient are
the exact results rounded once. Below `2^53` units all multiples are doubles, which is where the
subnormal numbers live, and no exponent ever has to be stored. In products the number of units in
one, which is huge, stands first: a product of naturals reduces along its second factor.
-/

import GuideRig.Number.Power

namespace GuideRig

/-- The quotient rounded to a whole number, a half going to the even neighbour. -/
def roundDiv (n d : Nat) : Nat :=
  let q := n / d
  let r := n % d
  if 2 * r < d then q else if d < 2 * r then q + 1 else q + q % 2

/-- A double that is finite and not negative: `units` times `2^-1074`. -/
structure Binary64 where
  units : Nat
  deriving DecidableEq, Repr

namespace Binary64

/-- How many units make one. -/
def one : Nat := twoTo 1074

/-- The spacing of doubles around `n / d` units: a power of two that leaves 53 significant bits. -/
def spacing (n d : Nat) : Nat := twoTo ((n / d).log2 - 52)

/-- The double nearest to `n / d` units. -/
def round (n d : Nat) : Binary64 := ⟨roundDiv n (d * spacing n d) * spacing n d⟩

/-- The double nearest to the fraction `n / d`. -/
def ofRatio (n d : Nat) : Binary64 := round (one * n) d

/-- The double nearest to a whole number. -/
def ofNat (n : Nat) : Binary64 := ofRatio n 1

/-- The sum, rounded once. -/
def add (a b : Binary64) : Binary64 := round (a.units + b.units) 1

/-- The product, rounded once. -/
def mul (a b : Binary64) : Binary64 := round (a.units * b.units) one

/-- The quotient, rounded once. -/
def div (a b : Binary64) : Binary64 := round (one * a.units) b.units

/-- Past the largest double, where the result of an operation is infinite. -/
def isInfinite (a : Binary64) : Bool := twoTo 1024 * one ≤ a.units

end Binary64

end GuideRig
