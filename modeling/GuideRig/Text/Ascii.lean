/-
# GuideRig.Text.Ascii -- classes of bytes, hexadecimal pairs and decimal digits

The formats read here (form queries, JSON, TOML, URLs, HTTP heads) are defined on ASCII bytes; all
classes below are about those 128 bytes and hold of no other.
-/

import GuideRig.Text.Utf8

namespace GuideRig.Ascii

/-! ## Classes -/

/-- The byte of an ASCII character. -/
def byte (c : Char) : UInt8 := c.toNat.toUInt8

/-- `0` to `9`. -/
def isDigit (b : UInt8) : Bool := byte '0' ≤ b && b ≤ byte '9'

/-- `A` to `Z`. -/
def isUpper (b : UInt8) : Bool := byte 'A' ≤ b && b ≤ byte 'Z'

/-- `a` to `z`. -/
def isLower (b : UInt8) : Bool := byte 'a' ≤ b && b ≤ byte 'z'

/-- A letter of either case. -/
def isAlpha (b : UInt8) : Bool := isUpper b || isLower b

/-- A letter or a digit. -/
def isAlphanumeric (b : UInt8) : Bool := isAlpha b || isDigit b

/-- The lower-case form of a byte; only `A` to `Z` change. -/
def lower (b : UInt8) : UInt8 := if isUpper b then b + 0x20 else b

/-- The text in lower case. -/
def lowercase (s : Bytes) : Bytes := s.map lower

/-- Equal up to the case of letters. -/
def sameLetters (a b : Bytes) : Bool := lowercase a == lowercase b

/-- The bytes of a text, for comparison with the fixed words of a format. -/
def bytes (s : String) : Bytes := Utf8.encode s

/-- The text of ASCII bytes. -/
def text (b : Bytes) : String := String.ofList (b.map fun b => Char.ofNat b.toNat)

/-! ## Hexadecimal -/

/-- The value of a hexadecimal digit, written with either case of letter. -/
def hexValue? (b : UInt8) : Option Nat :=
  if isDigit b then some (b.toNat - (byte '0').toNat)
  else if byte 'A' ≤ b && b ≤ byte 'F' then some (b.toNat - (byte 'A').toNat + 10)
  else if byte 'a' ≤ b && b ≤ byte 'f' then some (b.toNat - (byte 'a').toNat + 10)
  else none

/-- The byte that two hexadecimal digits name. -/
def hexPair? (h l : UInt8) : Option UInt8 :=
  match hexValue? h, hexValue? l with
  | some a, some b => some (a * 16 + b).toUInt8
  | _, _ => none

/-- The hexadecimal digit of a number below sixteen, in capitals. -/
def upperHex (n : Nat) : UInt8 :=
  if n < 10 then (n + (byte '0').toNat).toUInt8 else (n - 10 + (byte 'A').toNat).toUInt8

/-- The hexadecimal digit of a number below sixteen, in small letters. -/
def lowerHex (n : Nat) : UInt8 :=
  if n < 10 then (n + (byte '0').toNat).toUInt8 else (n - 10 + (byte 'a').toNat).toUInt8

/-! ## Decimal -/

/-- The decimal digits of a number, with no leading zero. -/
def decimal (n : Nat) : Bytes :=
  if n < 10 then [(n + (byte '0').toNat).toUInt8]
  else decimal (n / 10) ++ [(n % 10 + (byte '0').toNat).toUInt8]

/-- The decimal digits of an integer, after a minus sign if it is negative. -/
def decimalInt (v : Int) : Bytes :=
  if v < 0 then byte '-' :: decimal v.natAbs else decimal v.natAbs

/-- The number that a run of digits writes in a base, reading on from `n`. -/
def valueFrom (base : Nat) (n : Nat) (ds : Bytes) : Nat :=
  ds.foldl (fun n d => n * base + (hexValue? d).getD 0) n

/-- The number that a run of decimal digits writes; leading zeros count for nothing. -/
def value (ds : Bytes) : Nat := valueFrom 10 0 ds

/-- A number of at least one digit and nothing else. -/
def number? (ds : Bytes) : Option Nat :=
  if ds.isEmpty || !ds.all isDigit then none else some (value ds)

end GuideRig.Ascii
