/-
# GuideRig.Json.Number -- the value of a number literal

A literal with no fraction and no exponent is a whole number as long as it fits 64 bits; a negative
one needs the signed range, and `-0` is no whole number. Every other literal is a double. Its
significand is the longest run of digits that fits 64 bits, and the power of ten that is left is
applied by one multiplication or division, so that each of the two steps rounds once. A value past
the largest double is out of range, and so is an exponent that does not fit 31 bits.
-/

import GuideRig.Number.Shortest

namespace GuideRig.Json

open Ascii

/-- The value of a number literal. -/
inductive Number where
  | whole (value : Int)
  | decimal (negative : Bool) (value : Binary64)
  deriving DecidableEq, Repr

/-- The parts of a literal: sign, digits before the point, digits after it, and the sign and digits
of the exponent. -/
structure Literal where
  negative : Bool
  integer : Bytes
  fraction : Option Bytes
  exponent : Option (Bool × Bytes)
  deriving DecidableEq, Repr

/-- The parts of the bytes of a literal. -/
def Literal.ofBytes (s : Bytes) : Literal :=
  let (negative, s) := match s with
    | [] => (false, [])
    | b :: r => if b = byte '-' then (true, r) else (false, b :: r)
  let integer := s.takeWhile isDigit
  let s := s.dropWhile isDigit
  let (fraction, s) := match s with
    | [] => (none, [])
    | b :: r =>
      if b = byte '.' then (some (r.takeWhile isDigit), r.dropWhile isDigit) else (none, b :: r)
  let exponent := match s with
    | [] => none
    | _ :: [] => none
    | _ :: b :: r =>
      if b = byte '-' then some (true, r)
      else if b = byte '+' then some (false, r)
      else some (false, b :: r)
  ⟨negative, integer, fraction, exponent⟩

namespace Number

/-- The least number that does not fit 64 bits. -/
def wordLimit : Nat := twoTo 64

/-- Reads on into a significand while it fits; how many digits are left. -/
def takeDigits (s : Nat) : Bytes → Nat × Nat
  | [] => (s, 0)
  | d :: r =>
    let t := s * 10 + (d.toNat - (byte '0').toNat)
    if t < wordLimit then takeDigits t r else (s, r.length + 1)

/-- The exponent's digits as a number, or how many digits follow the first that does not fit. -/
def exponentValue (n : Nat) : Bytes → Except Nat Nat
  | [] => .ok n
  | d :: r =>
    let t := n * 10 + (d.toNat - (byte '0').toNat)
    if t < twoTo 31 then exponentValue t r else .error r.length

/-- The largest power of ten that is applied in one step. -/
def largestStep : Nat := 308

/-- A significand times a power of ten; nothing if it is out of range. The power is applied in one
step if it is at most 308; a longer division goes by steps of 308. -/
def scale (f : Binary64) : Nat → Int → Option Binary64
  | 0, _ => some f
  | steps + 1, e =>
    if e.natAbs ≤ largestStep then
      if 0 ≤ e then
        let g := f.mul (Binary64.ofNat (tenTo e.toNat))
        if g.isInfinite then none else some g
      else some (f.div (Binary64.ofNat (tenTo e.natAbs)))
    else if f.units = 0 then some f
    else if 0 ≤ e then none
    else scale (f.div (Binary64.ofNat (tenTo largestStep))) steps (e + largestStep)

/-- The value of a literal, or how many of its last bytes come after the place where it was found to
be out of range. -/
def ofLiteral (l : Literal) : Except Nat Number :=
  let (s, unread) := takeDigits 0 l.integer
  if l.fraction.isNone && l.exponent.isNone && unread = 0 then
    if !l.negative then .ok (.whole s)
    else if 1 ≤ s && s ≤ twoTo 63 then .ok (.whole (-s))
    else .ok (.decimal true (Binary64.ofNat s))
  else
    let places := l.fraction.getD []
    let (s, left) := takeDigits s places
    let power : Int := unread - (places.length - left : Nat)
    let finish (e : Int) : Except Nat Number :=
      match scale (Binary64.ofNat s) 4 e with
      | some v => .ok (.decimal l.negative v)
      | none => .error 0
    match l.exponent with
    | none => finish power
    | some (down, ds) =>
      match exponentValue 0 ds with
      | .ok e => finish (if down then power - e else power + e)
      | .error left =>
        if s ≠ 0 && !down then .error left else .ok (.decimal l.negative ⟨0⟩)

end Number

end GuideRig.Json
