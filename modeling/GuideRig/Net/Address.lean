/-
# GuideRig.Net.Address -- internet addresses and their texts

An address of four bytes is written in decimal with points, one of eight groups in hexadecimal with
colons, the longest run of two or more zero groups left out. A socket address adds a port, and for
the longer kind a scope. Printing and reading are separate; reading also takes the spellings that
printing never produces (other places for `::`, capitals, zeros in front of groups and ports).
-/

import GuideRig.Text.Ascii

namespace GuideRig

open Ascii

/-- An address of four bytes. -/
structure Ipv4 where
  a : UInt8
  b : UInt8
  c : UInt8
  d : UInt8
  deriving DecidableEq, Repr

/-- An address of eight groups. -/
structure Ipv6 where
  groups : List UInt16
  size : groups.length = 8
  deriving DecidableEq, Repr

/-- An address and a port to listen on. -/
inductive SocketAddress where
  | v4 (ip : Ipv4) (port : UInt16)
  | v6 (ip : Ipv6) (port : UInt16) (scope : UInt32)
  deriving DecidableEq, Repr

/-! ## Printing -/

namespace Ipv4

/-- The four bytes in decimal with points between them. -/
def bytes (ip : Ipv4) : Bytes :=
  decimal ip.a.toNat ++ byte '.' :: decimal ip.b.toNat ++ byte '.' :: decimal ip.c.toNat ++
    byte '.' :: decimal ip.d.toNat

/-- The address of a number of 32 bits. -/
def ofNat (n : Nat) : Ipv4 :=
  ⟨(n / 0x1000000).toUInt8, (n / 0x10000).toUInt8, (n / 0x100).toUInt8, n.toUInt8⟩

end Ipv4

namespace Ipv6

/-- The hexadecimal digits of a number, with no leading zero. -/
def hex (n : Nat) : Bytes :=
  if n < 16 then [lowerHex n] else hex (n / 16) ++ [lowerHex (n % 16)]

/-- Groups with colons between them. -/
def joined : List UInt16 → Bytes
  | [] => []
  | [g] => hex g.toNat
  | g :: gs => hex g.toNat ++ byte ':' :: joined gs

/-- A run of zero groups: where it starts and how long it is. -/
structure Run where
  start : Nat
  length : Nat
  deriving DecidableEq, Repr

/-- The longest run of zero groups, the first of several; `i` is the place of the next group and
`current` the run that ends before it. -/
def longestRun (i : Nat) (current best : Run) : List UInt16 → Run
  | [] => best
  | g :: gs =>
    if g = 0 then
      let current := if current.length = 0 then ⟨i, 1⟩ else ⟨current.start, current.length + 1⟩
      longestRun (i + 1) current (if best.length < current.length then current else best) gs
    else longestRun (i + 1) ⟨0, 0⟩ best gs

/-- The groups with the longest run of two or more zeros left out. -/
def bytes (ip : Ipv6) : Bytes :=
  let run := longestRun 0 ⟨0, 0⟩ ⟨0, 0⟩ ip.groups
  if 1 < run.length then
    joined (ip.groups.take run.start) ++ byte ':' :: byte ':' ::
      joined (ip.groups.drop (run.start + run.length))
  else joined ip.groups

/-- The address of four bytes that eight groups embed: five zeros, all ones, and the four bytes. -/
def embedded? (ip : Ipv6) : Option Ipv4 :=
  match ip.groups with
  | [0, 0, 0, 0, 0, 0xFFFF, g, h] => some (Ipv4.ofNat (g.toNat * 0x10000 + h.toNat))
  | _ => none

end Ipv6

namespace SocketAddress

/-- The port. -/
def port : SocketAddress → UInt16
  | v4 _ p => p
  | v6 _ p _ => p

/-- The address with another port. -/
def withPort : SocketAddress → UInt16 → SocketAddress
  | v4 ip _, p => v4 ip p
  | v6 ip _ s, p => v6 ip p s

/-- The host part, an embedded address of four bytes being shown with points. -/
def hostBytes : SocketAddress → Bytes
  | v4 ip _ => ip.bytes
  | v6 ip _ _ => match ip.embedded? with
    | some short => Ascii.bytes "::ffff:" ++ short.bytes
    | none => ip.bytes

/-- The address as it is shown. -/
def bytes (s : SocketAddress) : Bytes :=
  match s with
  | v4 _ p => s.hostBytes ++ byte ':' :: decimal p.toNat
  | v6 _ p scope =>
    byte '[' :: s.hostBytes ++
      (if scope = 0 then [] else byte '%' :: decimal scope.toNat) ++
      byte ']' :: byte ':' :: decimal p.toNat

/-- The address as a text. -/
def text (s : SocketAddress) : String := Ascii.text s.bytes

end SocketAddress

/-! ## Reading -/

/-- A number at the front of the bytes: all digits that stand there, at most `most` of them and
worth at most `limit`; a zero in front of other digits only where `zeros` allows it. -/
def readNumber (base : Nat) (most : Option Nat) (limit : Nat) (zeros : Bool) (s : Bytes) :
    Option (Nat × Bytes) :=
  let isDigitHere (b : UInt8) : Bool := match hexValue? b with
    | some v => decide (v < base)
    | none => false
  let ds := s.takeWhile isDigitHere
  let v := valueFrom base 0 ds
  if ds.isEmpty then none
  else if most.any fun m => decide (m < ds.length) then none
  else if limit < v then none
  else if !zeros && ds.head? == some (byte '0') && 1 < ds.length then none
  else some (v, s.dropWhile isDigitHere)

/-- The rest after one given byte. -/
def readByte (b : UInt8) : Bytes → Option Bytes
  | [] => none
  | c :: r => if c = b then some r else none

namespace Ipv4

/-- Four numbers below 256 with points between them, none with a zero in front. -/
def read (s : Bytes) : Option (Ipv4 × Bytes) := do
  let octet := readNumber 10 (some 3) 255 false
  let (a, s) ← octet s
  let (b, s) ← octet (← readByte (byte '.') s)
  let (c, s) ← octet (← readByte (byte '.') s)
  let (d, s) ← octet (← readByte (byte '.') s)
  some (⟨a.toUInt8, b.toUInt8, c.toUInt8, d.toUInt8⟩, s)

end Ipv4

namespace Ipv6

/-- Up to `slots` groups with colons between them; where two slots are left an address with points
may fill them, and ends the groups. The flag tells whether one did. -/
def readGroups : Nat → Bool → Bytes → List UInt16 × Bool × Bytes
  | 0, _, s => ([], false, s)
  | slots + 1, first, s =>
    let start := if first then some s else readByte (byte ':') s
    match (if 1 ≤ slots then start.bind Ipv4.read else none) with
    | some (ip, r) =>
      ([(ip.a.toNat * 0x100 + ip.b.toNat).toUInt16, (ip.c.toNat * 0x100 + ip.d.toNat).toUInt16],
        true, r)
    | none =>
      match start.bind (readNumber 16 (some 4) 0xFFFF true) with
      | none => ([], false, s)
      | some (g, r) =>
        let (gs, points, r) := readGroups slots false r
        (g.toUInt16 :: gs, points, r)

/-- Eight groups, or fewer around one `::` that stands for at least one zero group. -/
def read (s : Bytes) : Option (Ipv6 × Bytes) :=
  let (head, points, r) := readGroups 8 true s
  if h : head.length = 8 then some (⟨head, h⟩, r)
  else if points then none
  else do
    let r ← readByte (byte ':') r
    let r ← readByte (byte ':') r
    let (tail, _, r) := readGroups (7 - head.length) true r
    let groups := head ++ List.replicate (8 - head.length - tail.length) 0 ++ tail
    if h : groups.length = 8 then some (⟨groups, h⟩, r) else none

end Ipv6

namespace SocketAddress

/-- A colon and a port. -/
def readPort (s : Bytes) : Option (UInt16 × Bytes) := do
  let (p, s) ← readNumber 10 none 0xFFFF true (← readByte (byte ':') s)
  some (p.toUInt16, s)

/-- A percent sign and a scope, or none. -/
def readScope (s : Bytes) : Option (UInt32 × Bytes) :=
  match readByte (byte '%') s with
  | none => some (0, s)
  | some r => (readNumber 10 none 0xFFFFFFFF true r).map fun (n, r) => (n.toUInt32, r)

/-- The socket address that a text spells, if it spells one. -/
def ofBytes? (s : Bytes) : Option SocketAddress :=
  let short : Option (SocketAddress × Bytes) := do
    let (ip, s) ← Ipv4.read s
    let (p, s) ← readPort s
    some (v4 ip p, s)
  let long : Option (SocketAddress × Bytes) := do
    let (ip, s) ← Ipv6.read (← readByte (byte '[') s)
    let (scope, s) ← readScope s
    let (p, s) ← readPort (← readByte (byte ']') s)
    some (v6 ip p scope, s)
  match short.or long with
  | some (address, []) => some address
  | _ => none

/-- The socket address of a text. -/
def ofText? (s : String) : Option SocketAddress := ofBytes? (Utf8.encode s)

/-- What is said of a text that is no socket address. -/
def invalid : String := "invalid socket address syntax"

end SocketAddress

end GuideRig
