/-
# GuideRig.Text.Utf8 -- texts as bytes, and bytes read as text

Files, requests and answers are byte lists; words, names and messages are texts. This module
holds both ways across. `encode` writes a text. `pieces` cuts any byte list into characters and
ill-formed pieces, each as long as the beginning of some character allows, so that the strict
reader `decode?` and the forgiving reader `lossy` differ only in what they do with a piece that is
no character.
-/

namespace GuideRig

/-- What a file, a request or an answer holds. -/
abbrev Bytes := List UInt8

namespace Utf8

/-! ## Writing -/

/-- The UTF-8 form of one character: one to four bytes, by the size of its code point. -/
def ofChar (c : Char) : Bytes :=
  let n := c.toNat
  if n < 0x80 then [n.toUInt8]
  else if n < 0x800 then [(0xC0 + n / 0x40).toUInt8, (0x80 + n % 0x40).toUInt8]
  else if n < 0x10000 then
    [(0xE0 + n / 0x1000).toUInt8, (0x80 + n / 0x40 % 0x40).toUInt8, (0x80 + n % 0x40).toUInt8]
  else
    [(0xF0 + n / 0x40000).toUInt8, (0x80 + n / 0x1000 % 0x40).toUInt8,
      (0x80 + n / 0x40 % 0x40).toUInt8, (0x80 + n % 0x40).toUInt8]

/-- The UTF-8 form of a text. -/
def encode (s : String) : Bytes := s.toList.flatMap ofChar

/-! ## Reading -/

/-- A byte that may stand second, third or fourth in a character. -/
def isTail (b : UInt8) : Bool := 0x80 ≤ b && b ≤ 0xBF

/-- Two bytes that begin a character of three; short forms and surrogates are ruled out here. -/
def opensThree (a b : UInt8) : Bool :=
  0xE0 ≤ a && a ≤ 0xEF && isTail b && (a != 0xE0 || 0xA0 ≤ b) && (a != 0xED || b ≤ 0x9F)

/-- Two bytes that begin a character of four, none above U+10FFFF. -/
def opensFour (a b : UInt8) : Bool :=
  0xF0 ≤ a && a ≤ 0xF4 && isTail b && (a != 0xF0 || 0x90 ≤ b) && (a != 0xF4 || b ≤ 0x8F)

/-- The code point bits that a tail byte carries. -/
def bits (b : UInt8) : Nat := b.toNat - 0x80

/-- The bytes cut into characters (`some`) and ill-formed pieces (`none`). A piece that is no
character ends where the next byte cannot belong to any character begun by it. -/
def pieces : Bytes → List (Option Char)
  | [] => []
  | a :: s =>
    if a < 0x80 then some (Char.ofNat a.toNat) :: pieces s
    else match s with
      | [] => [none]
      | b :: t =>
        if 0xC2 ≤ a && a ≤ 0xDF && isTail b then
          some (Char.ofNat ((a.toNat - 0xC0) * 0x40 + bits b)) :: pieces t
        else if opensThree a b then
          match t with
          | [] => [none]
          | c :: u =>
            if isTail c then
              some (Char.ofNat (((a.toNat - 0xE0) * 0x40 + bits b) * 0x40 + bits c)) :: pieces u
            -- the third byte is none of this character: it begins the next piece
            else none :: pieces (c :: u)
        else if opensFour a b then
          match t with
          | [] => [none]
          | [c] => if isTail c then [none] else none :: pieces [c]
          | c :: d :: v =>
            if isTail c then
              if isTail d then
                some (Char.ofNat ((((a.toNat - 0xF0) * 0x40 + bits b) * 0x40 + bits c) * 0x40
                  + bits d)) :: pieces v
              else none :: pieces (d :: v)
            else none :: pieces (c :: d :: v)
        else none :: pieces (b :: t)
  termination_by s => s.length

/-- The text of well-formed bytes, and nothing for any others. -/
def decode? (b : Bytes) : Option String :=
  let ps := pieces b
  if ps.all Option.isSome then some (String.ofList (ps.filterMap id)) else none

/-- The text of any bytes: every ill-formed piece reads as one U+FFFD. -/
def lossy (b : Bytes) : String :=
  String.ofList ((pieces b).map fun p => p.getD '\uFFFD')

/-- How many bytes stand before the first ill-formed piece. -/
def wellFormedLength (b : Bytes) : Nat :=
  ((pieces b).takeWhile Option.isSome).foldl (fun n p => n + (p.map (ofChar · |>.length)).getD 0) 0

end Utf8

end GuideRig
