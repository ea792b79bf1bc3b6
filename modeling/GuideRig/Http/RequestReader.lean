/-
# GuideRig.Http.RequestReader -- reading the requests of a connection one byte at a time

A connection carries one request after the other. The reader is a machine like that of responses:
`step` takes one byte, and hands out a request as soon as its head has ended. The body of a request
is of no use to anyone here, so the reader skips it and then waits for the next request. `advance`
runs through the bytes at hand up to the next thing that has to be answered.
-/

import GuideRig.Http.Body
import GuideRig.Http.Message

namespace GuideRig

open Ascii

/-- Why the requests of a connection cannot be read any further. -/
inductive BadRequest where
  | badMethod
  | badTarget
  | targetTooLong
  | badVersion
  | badHeader
  | tooManyFields
  | badLength
  | badCoding
  /-- The old version of the protocol with a transfer coding. -/
  | unexpectedCoding
  | badBody
  /-- The connection ends inside a head. -/
  | incomplete
  deriving DecidableEq, Repr

namespace BadRequest

/-- The fault in words. -/
def message : BadRequest → String
  | badMethod => "invalid HTTP method parsed"
  | badTarget => "invalid URI"
  | targetTooLong => "URI too long"
  | badVersion => "invalid HTTP version parsed"
  | badHeader => "invalid HTTP header parsed"
  | tooManyFields => "message head is too large"
  | badLength => "invalid content-length parsed"
  | badCoding => "invalid transfer-encoding parsed"
  | unexpectedCoding => "unexpected transfer-encoding parsed"
  | badBody => "error reading a body from connection"
  | incomplete => "connection closed before message completed"

/-- The status that tells the client of the fault, if it is told. -/
def status? : BadRequest → Option Nat
  | targetTooLong => some 414
  | tooManyFields => some 431
  | badBody | incomplete => none
  | _ => some 400

end BadRequest

/-- What a request line says. -/
structure RequestLine where
  method : Method
  target : Bytes
  /-- Whether the version is the old one. -/
  old : Bool
  deriving DecidableEq, Repr

/-- A request and how the connection goes on after it. -/
structure Incoming where
  request : Request
  /-- Whether the version is the old one. -/
  old : Bool
  /-- Whether the connection is kept for more requests. -/
  persists : Bool
  deriving DecidableEq, Repr

/-- The state of the reader. -/
inductive RequestReader where
  /-- Before a request line, perhaps after the first half of a line end. -/
  | opening (half : Bool)
  /-- In the method, in reverse. -/
  | method (read : Bytes)
  /-- In the target, in reverse. -/
  | target (method : Method) (read : Bytes)
  /-- In the version; how many of its bytes have been read. -/
  | version (method : Method) (target : Bytes) (read : Nat)
  /-- After the request line. -/
  | afterLine (line : RequestLine)
  /-- The second half of the request line's end is due. -/
  | lineEnd (line : RequestLine)
  | fields (line : RequestLine) (block : FieldBlock) (phase : FieldPhase)
  /-- In a body, which is skipped. -/
  | skipping (phase : BodyPhase)
  deriving DecidableEq, Repr

/-! ## Targets -/

namespace Target

/-- The longest target that is understood. -/
def longest : Nat := 65534

/-- A byte that may stand in a request line as part of a target. -/
def inLine (b : UInt8) : Bool := 0x21 ≤ b && b != 0x7F

/-- A byte of a path. -/
def inPath (b : UInt8) : Bool := inLine b && !(bytes "#<>?").contains b && b != 0x60

/-- A byte of a query. -/
def inQuery (b : UInt8) : Bool := inLine b && !(bytes "\"#<>").contains b

/-- A byte of a host with its port and credentials. -/
def inAuthority (b : UInt8) : Bool := isAlphanumeric b || (bytes "-._~:[]@!$&'()*+,;=%").contains b

/-- Whether the bytes up to a fragment are a path and perhaps a query. -/
def isPathAndQuery (s : Bytes) : Bool :=
  let s := s.takeWhile (· != byte '#')
  (s.takeWhile (· != byte '?')).all inPath && ((s.dropWhile (· != byte '?')).drop 1).all inQuery

/-- Whether the bytes name a host; escapes stand in credentials alone. -/
def isAuthority (s : Bytes) : Bool :=
  let host := (s.reverse.takeWhile (· != byte '@')).reverse
  !host.isEmpty && s.all inAuthority && !host.contains (byte '%')

/-- Whether the bytes name a scheme. -/
def isScheme (s : Bytes) : Bool :=
  !s.isEmpty && s.all fun b => isAlphanumeric b || (bytes "+-.").contains b

/-- Whether the bytes are a target: a path, an asterisk, a URL or a host. -/
def isTarget (s : Bytes) : Bool :=
  if s.head? = some (byte '/') then isPathAndQuery s
  else if s = [byte '*'] then true
  else
    let scheme := s.takeWhile (· != byte ':')
    let rest := s.dropWhile (· != byte ':')
    if isScheme scheme && rest.take 3 == bytes "://" then
      let inside (b : UInt8) : Bool := !(bytes "/?#").contains b
      let rest := rest.drop 3
      isAuthority (rest.takeWhile inside) && isPathAndQuery (rest.dropWhile inside)
    else isAuthority s

end Target

namespace RequestReader

/-- Before the first request. -/
def start : RequestReader := .opening false

/-! ## The head -/

/-- The bytes of a version before its last digit. -/
def versionBytes : Bytes := bytes "HTTP/1."

/-- Whether a connection is kept: with the old version if that is asked for, and otherwise unless
its end is asked for. -/
def persists (old : Bool) (block : FieldBlock) : Bool :=
  let wishes := (block.values "connection").flatMap FieldBlock.items
  let asks (wish : String) : Bool := wishes.any fun w => sameLetters w (bytes wish)
  if old then asks "keep-alive" else !asks "close"

/-- The request of a head. -/
def incoming (line : RequestLine) (block : FieldBlock) : Incoming :=
  ⟨⟨line.method, line.target, block.reverse.map fun f => ⟨Ascii.text f.1, f.2⟩, []⟩, line.old,
    persists line.old block⟩

/-- How the reader goes on after a head. -/
def afterHead (line : RequestLine) (block : FieldBlock) : Except BadRequest RequestReader :=
  if Target.longest < line.target.length then .error .targetTooLong
  else if !Target.isTarget line.target then .error .badTarget
  else if !block.codings.isEmpty then
    if line.old then .error .unexpectedCoding
    else if FieldBlock.isChunked block.codings then .ok (.skipping (.chunked 0 .start))
    else .error .badCoding
  else if block.lengths.isEmpty then .ok start
  else match FieldBlock.length? block.lengths with
    | none => .error .badLength
    | some n =>
      if FieldBlock.mostLength < n then .error .tooManyFields
      else if n = 0 then .ok start
      else .ok (.skipping (.counted n))

/-! ## One byte -/

/-- A byte before the fields. -/
def stepLine (r : RequestReader) (b : UInt8) : Except BadRequest RequestReader :=
  match r with
  | .opening half =>
    if b = byte '\n' then .ok (.opening false)
    else if half then .error .badHeader
    else if b = byte '\r' then .ok (.opening true)
    else if FieldBlock.inName b then .ok (.method [b])
    else .error .badMethod
  | .method read =>
    if b = byte ' ' then .ok (.target ⟨Ascii.text read.reverse⟩ [])
    else if FieldBlock.inName b then .ok (.method (b :: read))
    else .error .badMethod
  | .target m read =>
    if b = byte ' ' then
      -- a target is a text, so that its bytes have to be well-formed
      if read.isEmpty || (Utf8.decode? read.reverse).isNone then .error .badTarget
      else .ok (.version m read.reverse 0)
    else if Target.inLine b then .ok (.target m (b :: read))
    else .error .badTarget
  | .version m t read =>
    if read < versionBytes.length then
      if versionBytes[read]? = some b then .ok (.version m t (read + 1))
      else .error .badVersion
    else if b = byte '1' then .ok (.afterLine ⟨m, t, false⟩)
    else if b = byte '0' then .ok (.afterLine ⟨m, t, true⟩)
    else .error .badVersion
  | .afterLine line =>
    if b = byte '\r' then .ok (.lineEnd line)
    else if b = byte '\n' then .ok (.fields line [] .line)
    else .error .badHeader
  | .lineEnd line => if b = byte '\n' then .ok (.fields line [] .line) else .error .badHeader
  | r => .ok r

/-- One byte: how the reader goes on, and the request whose head it ends. -/
def step (r : RequestReader) (b : UInt8) : Except BadRequest (RequestReader × Option Incoming) :=
  match r with
  | .fields line block p =>
    match FieldReader.step block p b with
    | .ok (.reading block p) => .ok (.fields line block p, none)
    | .ok (.ended block) => match afterHead line block with
      | .ok r => .ok (r, some (incoming line block))
      | .error f => .error f
    | .error .malformed => .error .badHeader
    | .error .tooMany => .error .tooManyFields
  | .skipping p =>
    match p.step b with
    | none => .error .badBody
    | some ⟨_, some p⟩ => .ok (.skipping p, none)
    | some ⟨_, none⟩ => .ok (start, none)
  | r => match stepLine r b with
    | .ok r => .ok (r, none)
    | .error f => .error f

/-! ## Runs -/

/-- What the bytes at hand lead to. -/
inductive Advance where
  /-- More bytes are needed. -/
  | waiting (reader : RequestReader)
  /-- A request is to be answered before the rest of the bytes is looked at. -/
  | asked (incoming : Incoming) (reader : RequestReader) (rest : Bytes)
  | refused (fault : BadRequest)
  deriving DecidableEq, Repr

/-- Reads on up to the next request or the end of the bytes. -/
def advance (r : RequestReader) : Bytes → Advance
  | [] => .waiting r
  | b :: rest =>
    match r.step b with
    | .error f => .refused f
    | .ok (r, some incoming) => .asked incoming r rest
    | .ok (r, none) => advance r rest

/-- What is wrong if the connection ends here. -/
def finish (r : RequestReader) : Option BadRequest :=
  match r with
  | .opening false => none
  | .skipping _ => some .badBody
  | _ => some .incomplete

end RequestReader

end GuideRig
