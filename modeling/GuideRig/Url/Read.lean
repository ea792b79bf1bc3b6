/-
# GuideRig.Url.Read -- reading a URL

A text is read as the web reads it: blanks around it and tabs and line ends inside it do not count,
a backslash is a slash where the scheme is one of the web's, and characters that may not stand for
themselves are escaped rather than refused. What can be wrong is the scheme, the host and the port;
the path is brought into its shortest form segment by segment.
-/

import GuideRig.Url.Host

namespace GuideRig.Url

open Ascii

/-! ## Which bytes stand for themselves -/

/-- In a fragment. -/
def keptInFragment (b : UInt8) : Bool := !Host.isControl b && !(bytes " \"<>`").contains b

/-- In a path. -/
def keptInPath (b : UInt8) : Bool := keptInFragment b && !(bytes "#?\x7b\x7d").contains b

/-- In a user name or password. -/
def keptInUser (b : UInt8) : Bool := keptInPath b && !(bytes "/:;=@[\\]^|").contains b

/-- In a query. -/
def keptInQuery (special : Bool) (b : UInt8) : Bool :=
  !Host.isControl b && !(bytes " \"#<>").contains b && !(special && b == byte '\'')

/-! ## Blanks and scheme -/

/-- A control character or a space. -/
def isBlank (b : UInt8) : Bool := b ≤ 0x20

/-- A tab or a line end. -/
def isBreak (b : UInt8) : Bool := b == 0x09 || b == 0x0A || b == 0x0D

/-- The bytes that count. -/
def significant (s : Bytes) : Bytes :=
  (((s.dropWhile isBlank).reverse.dropWhile isBlank).reverse).filter (!isBreak ·)

/-- A byte of a scheme after its first. -/
def inScheme (b : UInt8) : Bool :=
  isAlphanumeric b || b == byte '+' || b == byte '-' || b == byte '.'

/-- The scheme and what follows its colon. -/
def scheme? (s : Bytes) : Option (Bytes × Bytes) :=
  match s.head?, s.dropWhile inScheme with
  | some a, c :: r =>
    if isAlpha a && c == byte ':' then some (lowercase (s.takeWhile inScheme), r) else none
  | _, _ => none

/-! ## Paths -/

/-- A slash, or a backslash where that is one too. -/
def isSlash (special : Bool) (b : UInt8) : Bool := b == byte '/' || (special && b == byte '\\')

/-- The begin of a query or of a fragment. -/
def isEnd (b : UInt8) : Bool := b == byte '?' || b == byte '#'

/-- The segments between the slashes. -/
def segments (special : Bool) : Bytes → List Bytes
  | [] => [[]]
  | b :: r =>
    if isSlash special b then [] :: segments special r
    else match segments special r with
      | [] => [[b]]
      | p :: ps => (b :: p) :: ps

/-- A segment that stays where it is; a point may be escaped. -/
def isDot (s : Bytes) : Bool := sameLetters s (bytes ".") || sameLetters s (bytes "%2e")

/-- A segment that goes up; the points may be escaped. -/
def isDoubleDot (s : Bytes) : Bool :=
  sameLetters s (bytes "..") || sameLetters s (bytes ".%2e") || sameLetters s (bytes "%2e.") ||
    sameLetters s (bytes "%2e%2e")

/-- A letter and a colon, or the bar that stands for one. -/
def isDriveLetter (s : Bytes) : Bool :=
  match s with
  | [a, b] => isAlpha a && (b == byte ':' || b == byte '|')
  | _ => false

/-- The last segment of a path that is in reverse. -/
def lastOf (path : Bytes) : Bytes := (path.takeWhile (· != byte '/')).reverse

/-- A path, in reverse, without its last segment. A drive is not left, and neither is the slash at
the end of a path that has no other. -/
def parent (scheme path : Bytes) : Bytes :=
  let path := match path with
    | [] => []
    | b :: r =>
      if b = byte '/' && r.contains (byte '/') && !isDriveLetter (lastOf r) then r else b :: r
  if isFile scheme && isDrive (lastOf path) then path else path.dropWhile (· != byte '/')

/-- A path, in reverse, with a slash at its end. -/
def closed (path : Bytes) : Bytes :=
  if path.head? = some (byte '/') then path else byte '/' :: path

/-- A path, in reverse, with one more segment; the flag tells whether a slash follows. -/
def append (scheme path segment : Bytes) (slash : Bool) : Bytes :=
  if isDoubleDot segment then
    if slash then closed (parent scheme path) else parent scheme path
  else if isDot segment then closed path
  else
    -- a drive can only be the first segment, where the path is no more than its slash
    let isFirst := match path with
      | [_] => true
      | _ => false
    let segment :=
      if isFile scheme && isFirst && isDriveLetter segment then segment.take 1 ++ [byte ':']
      else segment
    (if slash then [byte '/'] else []) ++ segment.reverse ++ path

/-- A path, in reverse, with the segments that follow it. -/
def walk (scheme path : Bytes) : List Bytes → Bytes
  | [] => path
  | [s] => append scheme path s false
  | s :: r => walk scheme (append scheme path s true) r

/-- The path that text stands for, as far as it goes, after the path read so far. -/
def readPath (scheme path text : Bytes) : Bytes :=
  let text := text.takeWhile (!isEnd ·)
  let pieces := (segments (isSpecial scheme) text).map (Percent.encode keptInPath)
  let path := (walk scheme path.reverse pieces).reverse
  if isFile scheme then byte '/' :: path.dropWhile (· == byte '/') else path

/-- The path of a URL with an authority: that of a special scheme is never empty. -/
def readPathStart (scheme text : Bytes) : Bytes :=
  if isSpecial scheme then
    match text with
    | [] => readPath scheme [byte '/'] []
    | b :: r => readPath scheme [byte '/'] (if isSlash true b then r else b :: r)
  else
    match text with
    | [] => []
    | b :: r =>
      if isEnd b then []
      else if b = byte '/' then readPath scheme [] (b :: r)
      else readPath scheme [byte '/'] (b :: r)

/-! ## Query and fragment -/

/-- The query, if what follows the path begins with one. -/
def readQuery (scheme : Bytes) : Bytes → Option Bytes
  | [] => none
  | b :: r =>
    if b = byte '?' then
      some (Percent.encode (keptInQuery (isSpecial scheme)) (r.takeWhile (· != byte '#')))
    else none

/-- The fragment, if there is one. -/
def readFragment (s : Bytes) : Option Bytes :=
  match s.dropWhile (· != byte '#') with
  | [] => none
  | _ :: r => some (Percent.encode keptInFragment r)

/-- The URL of its parts and the text from the path on. -/
def assemble (scheme : Bytes) (authority : Option Authority) (path : Bytes) (hasSegments : Bool)
    (text : Bytes) : Url :=
  let rest := text.dropWhile (!isEnd ·)
  ⟨scheme, authority, path, hasSegments, readQuery scheme rest, readFragment rest⟩

/-! ## Authorities -/

/-- The bytes before the path. -/
def authorityPart (special : Bool) (s : Bytes) : Bytes :=
  s.takeWhile fun b => !isEnd b && !isSlash special b

/-- User and password, cut at the first colon; an empty password is none. -/
def readUser (s : Bytes) : Bytes × Option Bytes :=
  let user := s.takeWhile (· != byte ':')
  let password := (s.dropWhile (· != byte ':')).drop 1
  (Percent.encode keptInUser user,
    if password.isEmpty then none else some (Percent.encode keptInUser password))

/-- What stands before the last `@`, if there is one, and what stands after it. -/
def splitUser (s : Bytes) : Option Bytes × Bytes :=
  let host := (s.reverse.takeWhile (· != byte '@')).reverse
  if host.length < s.length then (some (s.take (s.length - host.length - 1)), host) else (none, s)

/-- The bytes of the host: up to a colon outside brackets. -/
def hostPart : Bool → Bytes → Bytes
  | _, [] => []
  | inside, b :: r =>
    -- inside brackets a colon belongs to the address
    if b = byte ':' && !inside then []
    else
      let inside := if b = byte '[' then true else if b = byte ']' then false else inside
      b :: hostPart inside r

/-- The port that stands before the path; none if it is the one that the scheme implies. -/
def readPort (scheme s : Bytes) : Except UrlFault (Option UInt16) :=
  let ds := s.takeWhile fun b => !isEnd b && !isSlash true b
  if ds.isEmpty then .ok none
  else match number? ds with
    | none => .error .badPort
    | some n =>
      if 0xFFFF < n then .error .badPort
      -- the port that goes without saying is not kept
      else if impliedPort? scheme = some n.toUInt16 then .ok none
      else .ok (some n.toUInt16)

/-- The host of a scheme other than that of local files. -/
def readHost (scheme s : Bytes) : Except UrlFault Host :=
  if isSpecial scheme then
    if s.isEmpty then .error .emptyHost else Host.ofDomain s
  else Host.ofName s

/-- The URL whose text after the double slash is given. -/
def readAuthority (scheme text : Bytes) : Except UrlFault Url :=
  let special := isSpecial scheme
  let (user, host) := splitUser (authorityPart special text)
  let text := text.drop (match user with
    | some u => u.length + 1
    | none => 0)
  let (name, password) := readUser (user.getD [])
  if user = some [] && host.isEmpty && !text.isEmpty then .error .emptyHost
  else
    let part := hostPart false host
    match readHost scheme part with
    | .error e => .error e
    | .ok h =>
      let rest := text.drop part.length
      let hasPort := rest.head? = some (byte ':')
      let isEmpty := h = .domain []
      if isEmpty && hasPort then .error .emptyHost
      else
        match (if hasPort then readPort scheme (rest.drop 1) else .ok none) with
        | .error e => .error e
        | .ok port =>
          let rest := if hasPort then
            (rest.drop 1).dropWhile isDigit else rest
          let authority : Authority := ⟨name, password, h, port⟩
          if isEmpty && !authority.credentials.isEmpty then .error .emptyHost
          else .ok (assemble scheme (some authority) (readPathStart scheme rest) true rest)

/-! ## Local files -/

/-- The authority of a local file: its host, if it has one. -/
def fileAuthority (host : Bytes) : Except UrlFault Authority :=
  if host.isEmpty then .ok ⟨[], none, .domain [], none⟩
  else match Host.ofDomain host with
    | .error e => .error e
    | .ok h => .ok ⟨[], none, if h = .domain (bytes "localhost") then .domain [] else h, none⟩

/-- Whether a path begins with a drive, so that no host goes with it. -/
def startsWithDrive (text : Bytes) : Bool :=
  (text.head?.any (isSlash true)) &&
    isDriveLetter ((text.drop 1).takeWhile fun b => !isEnd b && !isSlash true b)

/-- The URL of a local file, by the text after its scheme. -/
def readFile (scheme text : Bytes) : Except UrlFault Url :=
  let noHost : Authority := ⟨[], none, .domain [], none⟩
  match text with
  | a :: b :: r =>
    if isSlash true a && isSlash true b then
      let host := r.takeWhile fun b => !isEnd b && !isSlash true b
      if isDriveLetter host then
        .ok (assemble scheme (some noHost) (readPath scheme [byte '/'] r) true r)
      else
        match fileAuthority host with
        | .error e => .error e
        | .ok authority =>
          let rest := r.drop host.length
          let path := readPathStart scheme rest
          let authority := if startsWithDrive rest then noHost else authority
          .ok (assemble scheme (some authority) path true rest)
    else .ok (assemble scheme (some noHost) (readPathStart scheme text) true text)
  | _ => .ok (assemble scheme (some noHost) (readPathStart scheme text) true text)

/-! ## URLs -/

/-- The URL that a text is. -/
def ofBytes (s : Bytes) : Except UrlFault Url :=
  match scheme? (significant s) with
  | none => .error .noBase
  | some (scheme, rest) =>
    if isFile scheme then readFile scheme rest
    else if isSpecial scheme then readAuthority scheme (rest.dropWhile (isSlash true))
    else match rest with
      | [] => .ok (assemble scheme none [] false [])
      | a :: r =>
        if a = byte '/' then
          if r.head? = some (byte '/') then readAuthority scheme (r.drop 1)
          else .ok (assemble scheme none (readPath scheme [] rest) true rest)
        else
          .ok (assemble scheme none
            (Percent.encode (!Host.isControl ·) (rest.takeWhile (!isEnd ·))) false rest)

/-- The URL that a text is. -/
def ofText (s : String) : Except UrlFault Url := ofBytes (Utf8.encode s)

end GuideRig.Url
