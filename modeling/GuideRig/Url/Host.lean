/-
# GuideRig.Url.Host -- reading the host of a URL

What is a host depends on the scheme. For the schemes of the web it is a domain name, read through
its escapes and in small letters, or an address; a name whose last label is a number has to be an
address of four bytes, which may be written with fewer parts and in other bases. For other schemes
the host is kept as it stands. An address in brackets is the longer kind under either.

A domain name is ASCII here. To bring other names into that form, and to check labels that are in it
already and begin with `xn--`, takes the tables of Unicode: names outside ASCII are refused
(`isForbidden`), and such labels are kept as they stand.
-/

import GuideRig.Number.Power
import GuideRig.Url.Basic

namespace GuideRig.Host

open Ascii

/-- Control characters and everything outside ASCII. -/
def isControl (b : UInt8) : Bool := b < 0x20 || 0x7E < b

/-! ## Addresses of four bytes -/

/-- The labels of a domain name. -/
def labels : Bytes → List Bytes
  | [] => [[]]
  | b :: r =>
    if b = byte '.' then [] :: labels r
    else match labels r with
      | [] => [[b]]
      | p :: ps => (b :: p) :: ps

/-- The labels without the empty one after a final point. -/
def ownLabels (name : Bytes) : List Bytes :=
  let ls := labels name
  if ls.getLast? = some [] then ls.dropLast else ls

/-- The number that a part of an address writes, in base ten, in base sixteen after `0x`, or in base
eight after a zero. -/
def part? (s : Bytes) : Option Nat :=
  let inBase (base : Nat) (ds : Bytes) : Option Nat :=
    if ds.all fun b => match hexValue? b with
      | some v => decide (v < base)
      | none => false
    then some (valueFrom base 0 ds) else none
  match s with
  | [] => none
  | [a] => inBase 10 [a]
  | a :: b :: r =>
    if a = byte '0' then
      if b = byte 'x' || b = byte 'X' then inBase 16 r else inBase 8 (b :: r)
    else inBase 10 (a :: b :: r)

/-- Whether a name has to be an address: its last label is all digits or some number. -/
def endsInNumber (name : Bytes) : Bool :=
  match (ownLabels name).getLast? with
  | none => false
  | some last => (!last.isEmpty && last.all isDigit) || (part? last).isSome

/-- The address of up to four parts: the last one fills the bytes that the others leave. -/
def ofParts? (parts : List Nat) : Option Ipv4 :=
  match parts.reverse with
  | [] => none
  | last :: front =>
    let front := front.reverse
    if 4 < parts.length then none
    else if twoTo (8 * (4 - front.length)) ≤ last then none
    else if front.any fun n => decide (255 < n) then none
    else some (Ipv4.ofNat (front.foldl (fun n p => n * 0x100 + p) 0 * twoTo (8 * (4 - front.length)) + last))

/-- The address that a name writes. -/
def v4? (name : Bytes) : Option Ipv4 := ((ownLabels name).mapM part?).bind ofParts?

/-! ## Hosts -/

/-- The address in brackets. -/
def bracketed (s : Bytes) : Except UrlFault Host :=
  match s.getLast? with
  | some c =>
    if c = byte ']' then
      match Ipv6.read ((s.drop 1).dropLast) with
      | some (ip, []) => .ok (.v6 ip)
      | _ => .error .badIpv6
    else .error .badIpv6
  | none => .error .badIpv6

/-- The bytes that no domain name holds. -/
def isForbidden (b : UInt8) : Bool :=
  isControl b || b == byte ' ' || (Ascii.bytes "%#/:<>?@[\\]^|").contains b

/-- The host of a URL of the web. -/
def ofDomain (s : Bytes) : Except UrlFault Host :=
  if s.head? = some (byte '[') then bracketed s
  else
    let name := lowercase (Percent.decode s)
    if name.any isForbidden then .error .badDomainName
    else if name.isEmpty then .error .emptyHost
    else if endsInNumber name then
      match v4? name with
      | some ip => .ok (.v4 ip)
      | none => .error .badIpv4
    else .ok (.domain name)

/-- The bytes that no other host holds. -/
def isForbiddenAnywhere (b : UInt8) : Bool :=
  b == 0 || b == 0x09 || b == 0x0A || b == 0x0D || (Ascii.bytes " #/:<>?@[\\]^|").contains b

/-- The host of any other URL. -/
def ofName (s : Bytes) : Except UrlFault Host :=
  if s.head? = some (byte '[') then bracketed s
  else if s.any isForbiddenAnywhere then .error .badDomainCharacter
  else .ok (.domain (Percent.encode (!isControl ·) s))

end GuideRig.Host
