/-
# GuideRig.Http.Wire -- messages as the bytes that are sent

A message is a first line, its fields with a line each, an empty line and the body. A response is
written for the request that it answers: in its version, with the length of the body, the date, and
a word on the connection where the request's version would otherwise mean something else.
-/

import GuideRig.Calendar
import GuideRig.Http.RequestReader

namespace GuideRig

open Ascii

/-- The end of a line. -/
def lineBreak : Bytes := bytes "\r\n"

/-- A field with its line's end. -/
def HeaderField.toBytes (h : HeaderField) : Bytes := bytes h.name ++ bytes ": " ++ h.value ++ lineBreak

/-- First line, fields and body put together. -/
def messageBytes (line : Bytes) (fields : List HeaderField) (body : Bytes) : Bytes :=
  line ++ lineBreak ++ fields.flatMap HeaderField.toBytes ++ lineBreak ++ body

/-- The bytes of a request. -/
def Request.toBytes (r : Request) : Bytes :=
  messageBytes (bytes r.method.name ++ byte ' ' :: r.target ++ bytes " HTTP/1.1") r.headers r.body

namespace Response

/-- What is said of the connection: only what the version does not say by itself. -/
def connectionFields (old persists : Bool) : List HeaderField :=
  if old && persists then [⟨"Connection", bytes "keep-alive"⟩]
  else if old || persists then []
  else [⟨"Connection", bytes "close"⟩]

/-- The fields of a response as they are sent. -/
def sentFields (r : Response) (old persists : Bool) (now : Instant) : List HeaderField :=
  r.headers ++ connectionFields old persists ++
    [⟨"Content-Length", decimal r.body.length⟩, ⟨"Date", bytes now.dateField⟩]

/-- The bytes of a response. -/
def toBytes (r : Response) (old persists : Bool) (now : Instant) : Bytes :=
  messageBytes (bytes (if old then "HTTP/1.0 " else "HTTP/1.1 ") ++ bytes (Status.text r.status))
    (r.sentFields old persists now) r.body

end Response

/-- The response that tells a client why its request cannot be read. -/
def BadRequest.response? (f : BadRequest) : Option Response := f.status?.map fun s => ⟨s, [], []⟩

end GuideRig
