/-
# GuideRig.Http.Exchange -- one request and what comes of it

Each request has a connection of its own. A backend is what happens to the connections in the order
in which they are tried: nobody can be reached, or some bytes come back before the connection ends.
An exchange checks the scheme of the URL, then connects, then builds the request; the body of the
response is read to its end before its status is judged.
-/

import GuideRig.Error
import GuideRig.Http.ResponseReader

namespace GuideRig

open Ascii

/-- What becomes of a connection. -/
inductive Answer where
  /-- It cannot be made. -/
  | unreachable (cause : IoError)
  /-- The bytes that come back before it ends. -/
  | reply (bytes : Bytes)
  deriving DecidableEq, Repr

/-- What becomes of the connections, by their number. -/
abbrev Backend := Nat → Answer

/-- What comes of a request. -/
structure Exchange where
  /-- Whether a connection was tried. -/
  tried : Bool
  /-- The request, if it was sent. -/
  sent : Option Request
  /-- The body of the response. -/
  outcome : Except Error Bytes

namespace Exchange

/-! ## Building requests -/

/-- The longest target that is sent. -/
def longestTarget : Nat := 65534

/-- A byte that may stand in a header value. -/
def inHeaderValue (b : UInt8) : Bool := b == byte '\t' || (0x20 ≤ b && b != 0x7F)

/-- The field that names the host. -/
def hostField (url : Url) : HeaderField := ⟨"Host", url.hostPort⟩

/-- The fields that tell of a body. -/
def bodyFields (body : Bytes) : List HeaderField :=
  if body.isEmpty then [] else [⟨"Content-Length", decimal body.length⟩]

/-- The request for a URL, or why it cannot be built. -/
def build (method : Method) (url : Url) (headers : List HeaderField) (body : Bytes) :
    Except RequestFault Request :=
  if longestTarget < url.target.length then .error .targetTooLong
  else if headers.all fun h => h.value.all inHeaderValue then
    .ok ⟨method, url.target, hostField url :: headers ++ bodyFields body, body⟩
  else .error .badHeaderValue

/-! ## Judging responses -/

/-- The body of the response in what a connection delivers. -/
def judge (method : Method) (url : Url) (bytes : Bytes) : Except Error Bytes :=
  match ResponseReader.read bytes with
  | .error f => .error (.response f)
  | .ok (status, body) =>
    if Status.isSuccess status then .ok body else .error (.status method url.text status)

/-! ## Exchanges -/

/-- Whether a URL can be reached at all. -/
def isReachable (url : Url) : Bool := url.scheme == Url.http && url.authority.isSome

/-- Sends a request. -/
def send (method : Method) (url : Url) (headers : List HeaderField) (body : Bytes)
    (answer : Answer) : Exchange :=
  if !isReachable url then ⟨false, none, .error (.unsupportedUrl url.text)⟩
  -- the connection is made before the request is built, so a bad request has tried one
  else match answer with
    | .unreachable cause => ⟨true, none, .error (.io cause)⟩
    | .reply bytes =>
      match build method url headers body with
      | .error f => ⟨true, none, .error (.request f)⟩
      | .ok request => ⟨true, some request, judge method url bytes⟩

end Exchange

end GuideRig
