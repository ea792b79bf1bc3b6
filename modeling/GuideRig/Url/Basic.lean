/-
# GuideRig.Url.Basic -- the parts of a URL

A URL is held by its parts, each in the form in which it is shown: scheme and domain in small
letters, everything that may not stand for itself escaped. `text` puts the parts together.
`resolve` is the URL that a relative reference of one segment stands for: the segment takes the
place of whatever follows the last slash of the path, and query and fragment are dropped.
-/

import GuideRig.Net.Address
import GuideRig.Text.Percent

namespace GuideRig

open Ascii

/-- Why a text is no URL, or a reference cannot be resolved. -/
inductive UrlFault where
  | noBase
  | opaqueBase
  | emptyHost
  | badPort
  | badIpv4
  | badIpv6
  | badDomainName
  | badDomainCharacter
  deriving DecidableEq, Repr

namespace UrlFault

/-- The fault in words. -/
def message : UrlFault → String
  | noBase => "relative URL without a base"
  | opaqueBase => "relative URL with a cannot-be-a-base base"
  | emptyHost => "empty host"
  | badPort => "invalid port number"
  | badIpv4 => "invalid IPv4 address"
  | badIpv6 => "invalid IPv6 address"
  | badDomainName => "invalid international domain name"
  | badDomainCharacter => "invalid domain character"

/-- The name of the fault. -/
def name : UrlFault → String
  | noBase => "RelativeUrlWithoutBase"
  | opaqueBase => "RelativeUrlWithCannotBeABaseBase"
  | emptyHost => "EmptyHost"
  | badPort => "InvalidPort"
  | badIpv4 => "InvalidIpv4Address"
  | badIpv6 => "InvalidIpv6Address"
  | badDomainName => "IdnaError"
  | badDomainCharacter => "InvalidDomainCharacter"

end UrlFault

/-! ## Hosts -/

/-- The host of a URL. The empty domain is that of a URL with nothing between its slashes. -/
inductive Host where
  | domain (name : Bytes)
  | v4 (ip : Ipv4)
  | v6 (ip : Ipv6)
  deriving DecidableEq, Repr

namespace Host

/-- The host as it is shown; the longer kind of address stands in brackets. -/
def bytes : Host → Bytes
  | domain name => name
  | v4 ip => ip.bytes
  | v6 ip => byte '[' :: ip.bytes ++ [byte ']']

end Host

/-! ## URLs -/

/-- What stands between the double slash and the path. -/
structure Authority where
  user : Bytes
  password : Option Bytes
  host : Host
  /-- The port, unless it is the one that the scheme implies. -/
  port : Option UInt16
  deriving DecidableEq, Repr

/-- A URL by its parts. -/
structure Url where
  scheme : Bytes
  authority : Option Authority
  path : Bytes
  /-- Whether the path is made of segments; if not, nothing is relative to the URL. -/
  hasSegments : Bool
  query : Option Bytes
  fragment : Option Bytes
  deriving DecidableEq, Repr

namespace Authority

/-- Host and port. -/
def hostPort (a : Authority) : Bytes :=
  a.host.bytes ++ match a.port with
    | some p => byte ':' :: decimal p.toNat
    | none => []

/-- User and password with the sign after them, if there are any. -/
def credentials (a : Authority) : Bytes :=
  if a.user.isEmpty && a.password.isNone then []
  else a.user ++ (match a.password with
    | some p => byte ':' :: p
    | none => []) ++ [byte '@']

end Authority

namespace Url

/-- The scheme whose URLs can be reached. -/
def http : Bytes := bytes "http"

/-- The port that a scheme implies. -/
def impliedPort? (scheme : Bytes) : Option UInt16 :=
  if scheme == bytes "http" || scheme == bytes "ws" then some 80
  else if scheme == bytes "https" || scheme == bytes "wss" then some 443
  else if scheme == bytes "ftp" then some 21
  else none

/-- The scheme of local files. -/
def isFile (scheme : Bytes) : Bool := scheme == bytes "file"

/-- The schemes whose URLs always have an authority and a path. -/
def isSpecial (scheme : Bytes) : Bool := (impliedPort? scheme).isSome || isFile scheme

/-- What stands between the scheme and the path. A path that begins with two slashes is kept from
looking like an authority. -/
def front (u : Url) : Bytes :=
  match u.authority with
  | some a => byte '/' :: byte '/' :: a.credentials ++ a.hostPort
  | none => if u.hasSegments && u.path.take 2 == bytes "//" then bytes "/." else []

/-- Path and query. -/
def target (u : Url) : Bytes :=
  u.path ++ match u.query with
    | some q => byte '?' :: q
    | none => []

/-- The URL as it is shown. -/
def toBytes (u : Url) : Bytes :=
  u.scheme ++ byte ':' :: u.front ++ u.target ++ match u.fragment with
    | some f => byte '#' :: f
    | none => []

/-- The URL as a text. -/
def text (u : Url) : String := Ascii.text u.toBytes

/-- The host and port that requests name. -/
def hostPort (u : Url) : Bytes :=
  match u.authority with
  | some a => a.hostPort
  | none => []

/-- Where a connection for the URL goes: its host, and its own port or the one its scheme implies. -/
def endpoint? (u : Url) : Option (Host × UInt16) :=
  u.authority.bind fun a => (a.port.or (impliedPort? u.scheme)).map fun p => (a.host, p)

/-! ## References -/

/-- A path up to and including its last slash. -/
def directory (path : Bytes) : Bytes :=
  (path.reverse.dropWhile (· != byte '/')).reverse

/-- What stands after the last slash of a path. -/
def lastSegment (path : Bytes) : Bytes :=
  (path.reverse.takeWhile (· != byte '/')).reverse

/-- A letter and a colon: a drive, which paths of local files keep. -/
def isDrive (segment : Bytes) : Bool :=
  match segment with
  | [a, b] => isAlpha a && b == byte ':'
  | _ => false

/-- The path of the folder in which a segment is looked for. -/
def folder (scheme path : Bytes) : Bytes :=
  if path.isEmpty then [byte '/']
  else if isFile scheme && isDrive (lastSegment path) then path ++ [byte '/']
  else directory path

/-- The URL of a segment relative to a URL. -/
def resolve (u : Url) (segment : Bytes) : Except UrlFault Url :=
  if u.hasSegments then
    .ok ⟨u.scheme, u.authority, folder u.scheme u.path ++ segment, true, none, none⟩
  else .error .opaqueBase

end Url

end GuideRig
