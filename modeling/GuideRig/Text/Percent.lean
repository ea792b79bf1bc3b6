/-
# GuideRig.Text.Percent -- bytes written as a percent sign and two hexadecimal digits

URLs and form queries write a byte that may not stand for itself as `%` and two hexadecimal
digits. `encode` leaves the bytes of a given class as they are and writes every other one in that
way, with capitals; `decode` takes digits of either case and leaves a percent sign that is not
followed by two digits as it is.
-/

import GuideRig.Text.Ascii

namespace GuideRig.Percent

open Ascii

/-- One byte written as a percent sign and two digits. -/
def escape (b : UInt8) : Bytes :=
  [byte '%', upperHex (b.toNat / 16), upperHex (b.toNat % 16)]

/-- The bytes with all but those of the class `keep` escaped. -/
def encode (keep : UInt8 → Bool) (s : Bytes) : Bytes :=
  s.flatMap fun b => if keep b then [b] else escape b

/-- The bytes with every escape replaced by the byte it names. -/
def decode : Bytes → Bytes
  | [] => []
  | [a] => [a]
  | [a, b] => [a, b]
  | a :: h :: l :: r =>
    match if a = byte '%' then hexPair? h l else none with
    | some x => x :: decode r
    | none => a :: decode (h :: l :: r)

end GuideRig.Percent
