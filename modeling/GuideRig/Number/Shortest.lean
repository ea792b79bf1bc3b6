/-
# GuideRig.Number.Shortest -- the fewest digits that read back as a double

A double stands for all reals that round to it. `shortest` takes the decimals of one digit, then
of two, and so on up to seventeen, and answers with the first grid that has a point among those
reals; of two such points the nearer one is taken. How the digits are laid out is a separate
choice: `Layout.plain` writes them positionally, `Layout.report` turns to an exponent outside the
range `1e-5` to `1e16`.
-/

import GuideRig.Number.Binary64
import GuideRig.Text.Ascii

namespace GuideRig

/-- A positive decimal `d.ddd · 10^exponent`, by its digits from the first that is not zero. -/
structure Digits where
  digits : Bytes
  exponent : Int
  deriving DecidableEq, Repr

namespace Binary64

/-- The exponent of the leading decimal digit of `n / d`, searched upwards from `low`. -/
def leadingExponent (n d : Nat) : Nat → Int → Int
  | 0, low => low
  | fuel + 1, low =>
    let next := low + 1
    let reached := if 0 ≤ next then d * tenTo next.toNat ≤ n else d ≤ n * tenTo (-next).toNat
    if reached then leadingExponent n d fuel next else low

/-- Four times the distance, in units, from a double down and up to the ends of its interval, and
whether the ends belong to it. -/
def interval (a : Binary64) : Nat × Nat × Bool :=
  let step := spacing a.units 1
  let mantissa := a.units / step
  -- below a power of two the doubles lie twice as close
  let down := if mantissa = twoTo 52 ∧ 1 < step then step else 2 * step
  (down, 2 * step, mantissa % 2 = 0)

/-- `c · 10^g` lies among the reals that round to the double. -/
def holds (a : Binary64) (c : Nat) (g : Int) : Bool :=
  let (down, up, closed) := a.interval
  -- both sides times `4 · 10^(-g)` units when `g` is negative
  let scale := if 0 ≤ g then 1 else tenTo (-g).toNat
  let point := 4 * c * one * (if 0 ≤ g then tenTo g.toNat else 1)
  let low := (4 * a.units - down) * scale
  let high := (4 * a.units + up) * scale
  if closed then low ≤ point && point ≤ high else low < point && point < high

/-- The nearer of the two neighbours `q` and `q + 1` on the grid of `10^g`; a tie goes to the even
one. -/
def nearerIsUpper (a : Binary64) (q : Nat) (g : Int) : Bool :=
  let scale := if 0 ≤ g then 1 else tenTo (-g).toNat
  let grid := if 0 ≤ g then tenTo g.toNat else 1
  let twice := 2 * a.units * scale
  let middle := (2 * q + 1) * one * grid
  middle < twice || (middle == twice && q % 2 == 1)

/-- The digits of a decimal coefficient without its trailing zeros. -/
def stripZeros (ds : Bytes) : Bytes :=
  (ds.reverse.dropWhile (· == Ascii.byte '0')).reverse

/-- Tries `k` digits, then one more, for the leading exponent `e`. -/
def searchDigits (a : Binary64) (e : Int) : Nat → Nat → Digits
  | 0, _ => ⟨[], e⟩
  | fuel + 1, k =>
    let g := e - (k - 1)
    let q := if 0 ≤ g then a.units / (one * tenTo g.toNat) else a.units * tenTo (-g).toNat / one
    -- only the two neighbours of the double on this grid can read back as it
    let lower := holds a q g
    let upper := holds a (q + 1) g
    let pick : Option Nat :=
      if lower && upper then some (if nearerIsUpper a q g then q + 1 else q)
      else if lower then some q
      else if upper then some (q + 1)
      else none
    match pick with
    | some c =>
      let ds := Ascii.decimal c
      ⟨stripZeros ds, g + (ds.length - 1)⟩
    | none => searchDigits a e fuel (k + 1)

/-- The fewest digits that read back as the double, for one that is not zero. -/
def shortest (a : Binary64) : Digits :=
  searchDigits a (leadingExponent a.units one 700 (-330)) 17 1

end Binary64

/-! ## Layouts -/

/-- How the digits of a decimal are set out. -/
structure Layout where
  /-- The leading exponents that are written positionally. -/
  positional : Int → Bool
  /-- Whether a whole number is written with `.0`. -/
  pointAlways : Bool

namespace Layout

/-- Positional notation throughout, whole numbers without a point. -/
def plain : Layout := ⟨fun _ => true, false⟩

/-- Positional notation throughout, whole numbers with `.0`. -/
def pointed : Layout := ⟨fun _ => true, true⟩

/-- Positional notation from `1e-5` up to below `1e16`, and an exponent of a sign and at least two
digits beyond; positional whole numbers are written with `.0`. -/
def report : Layout := ⟨fun e => decide (-5 ≤ e) && decide (e ≤ 15), true⟩

/-- A run of zeros. -/
def zeros (n : Nat) : Bytes := List.replicate n (Ascii.byte '0')

/-- The exponent mark: `e`, the sign, and two digits or more. -/
def mark (e : Int) : Bytes :=
  let ds := Ascii.decimal e.natAbs
  Ascii.byte 'e' :: (if e < 0 then Ascii.byte '-' else Ascii.byte '+') ::
    (if ds.length < 2 then Ascii.byte '0' :: ds else ds)

/-- Digits set out by a layout. -/
def write (l : Layout) (d : Digits) : Bytes :=
  let point := Ascii.byte '.'
  if l.positional d.exponent then
    if d.exponent < 0 then
      zeros 1 ++ point :: zeros ((-d.exponent).toNat - 1) ++ d.digits
    else
      let whole := d.exponent.toNat + 1
      if d.digits.length ≤ whole then
        d.digits ++ zeros (whole - d.digits.length) ++
          (if l.pointAlways then point :: zeros 1 else [])
      else d.digits.take whole ++ point :: d.digits.drop whole
  else
    match d.digits with
    | [] => []
    | [a] => a :: mark d.exponent
    | a :: r => a :: point :: r ++ mark d.exponent

end Layout

/-- The text of a double that is not negative. -/
def Binary64.text (l : Layout) (a : Binary64) : Bytes :=
  if a.units = 0 then
    if l.pointAlways then Ascii.bytes "0.0" else Ascii.bytes "0"
  else l.write a.shortest

end GuideRig
