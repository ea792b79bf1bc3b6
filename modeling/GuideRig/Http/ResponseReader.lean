/-
# GuideRig.Http.ResponseReader -- reading a response one byte at a time

The reader is a machine: each byte takes it from one state to the next or stops it with a fault.
A state is in the status line, in the fields, in the body, or complete, and a complete state takes
no notice of what follows. The head decides how the body ends: with the head itself, after a number
of bytes, with an empty chunk, or only with the connection. The end of the connection is a separate
question (`finish`), and in every state but the complete one and that last kind of body it is a
fault; so a response that carries its own end is never taken for complete when it is cut.
-/

import GuideRig.Http.Body
import GuideRig.Http.Message

namespace GuideRig

open Ascii

/-- What a status line says. -/
structure StatusLine where
  /-- Whether the version is the old one. -/
  old : Bool
  status : Nat
  deriving DecidableEq, Repr

/-- Where the reader stands in a status line. -/
inductive StatusPhase where
  /-- Before the status line, perhaps after the first half of a line end. -/
  | opening (half : Bool)
  /-- In the version; how many of its bytes have been read. -/
  | version (read : Nat)
  /-- The space after the version is due. -/
  | gap (old : Bool)
  /-- In the status; how many of its digits are due, and their value so far. -/
  | status (old : Bool) (due : Nat) (value : Nat)
  /-- After the status. -/
  | afterStatus (line : StatusLine)
  /-- In the words after the status. -/
  | reason (line : StatusLine)
  /-- The second half of the line's end is due. -/
  | lineEnd (line : StatusLine)
  deriving DecidableEq, Repr

/-- The state of the reader. Bytes of the body are in reverse. -/
inductive ResponseReader where
  | opening (phase : StatusPhase)
  | fields (line : StatusLine) (block : FieldBlock) (phase : FieldPhase)
  | body (status : Nat) (read : Bytes) (phase : BodyPhase)
  | complete (status : Nat) (read : Bytes)
  deriving DecidableEq, Repr

namespace ResponseReader

/-- Before the response. -/
def start : ResponseReader := .opening (.opening false)

/-! ## The head -/

/-- The bytes of a version before its last digit. -/
def versionBytes : Bytes := bytes "HTTP/1."

/-- The state after the head. -/
def afterHead (line : StatusLine) (block : FieldBlock) : Except ResponseFault ResponseReader :=
  if line.status < 100 then .error .badStatus
  -- an interim response only announces the one that follows it
  else if Status.isInterim line.status then .ok start
  else if Status.isBare line.status then .ok (.complete line.status [])
  -- where both are given, the coding counts and the length does not
  else if !block.codings.isEmpty then
    if line.old then .error .unexpectedCoding
    else if FieldBlock.isChunked block.codings then .ok (.body line.status [] (.chunked 0 .start))
    else .ok (.body line.status [] .untilClose)
  else if block.lengths.isEmpty then .ok (.body line.status [] .untilClose)
  else match FieldBlock.length? block.lengths with
    | none => .error .badLength
    | some n =>
      if FieldBlock.mostLength < n then .error .tooLarge
      else if n = 0 then .ok (.complete line.status [])
      else .ok (.body line.status [] (.counted n))

/-- The state at the begin of the fields. -/
def toFields (line : StatusLine) : Except ResponseFault ResponseReader :=
  .ok (.fields line [] .line)

/-- A byte of the status line. -/
def stepOpening (p : StatusPhase) (b : UInt8) : Except ResponseFault ResponseReader :=
  match p with
  | .opening half =>
    if b = byte '\n' then .ok (.opening (.opening false))
    else if half then .error .badHeader
    else if b = byte '\r' then .ok (.opening (.opening true))
    else if b = byte 'H' then .ok (.opening (.version 1))
    else .error .badVersion
  | .version read =>
    if read < versionBytes.length then
      if versionBytes[read]? = some b then .ok (.opening (.version (read + 1)))
      else .error .badVersion
    else if b = byte '1' then .ok (.opening (.gap false))
    else if b = byte '0' then .ok (.opening (.gap true))
    else .error .badVersion
  | .gap old => if b = byte ' ' then .ok (.opening (.status old 3 0)) else .error .badVersion
  | .status old due value =>
    if isDigit b then
      let value := value * 10 + (b - byte '0').toNat
      if due ≤ 1 then .ok (.opening (.afterStatus ⟨old, value⟩))
      else .ok (.opening (.status old (due - 1) value))
    else .error .badStatus
  | .afterStatus line =>
    if b = byte ' ' then .ok (.opening (.reason line))
    else if b = byte '\r' then .ok (.opening (.lineEnd line))
    else if b = byte '\n' then toFields line
    else .error .badStatus
  | .reason line =>
    if b = byte '\r' then .ok (.opening (.lineEnd line))
    else if b = byte '\n' then toFields line
    else if FieldBlock.inText b then .ok (.opening (.reason line))
    else .error .badStatus
  | .lineEnd line => if b = byte '\n' then toFields line else .error .badStatus

/-- A byte of the fields. -/
def stepFields (line : StatusLine) (block : FieldBlock) (p : FieldPhase) (b : UInt8) :
    Except ResponseFault ResponseReader :=
  match FieldReader.step block p b with
  | .ok (.reading block p) => .ok (.fields line block p)
  | .ok (.ended block) => afterHead line block
  | .error .malformed => .error .badHeader
  | .error .tooMany => .error .tooLarge

/-! ## The body -/

/-- A byte of the body. -/
def stepBody (status : Nat) (read : Bytes) (p : BodyPhase) (b : UInt8) :
    Except ResponseFault ResponseReader :=
  match p.step b with
  | none => .error .badBody
  | some ⟨isContent, next⟩ =>
    let read := if isContent then b :: read else read
    match next with
    | some p => .ok (.body status read p)
    | none => .ok (.complete status read)

/-! ## Runs -/

/-- One byte. -/
def step (r : ResponseReader) (b : UInt8) : Except ResponseFault ResponseReader :=
  match r with
  | .opening p => stepOpening p b
  | .fields line block p => stepFields line block p b
  | .body status read p => stepBody status read p b
  | .complete _ _ => .ok r

/-- Reads on from a state. -/
def run (r : ResponseReader) : Bytes → Except ResponseFault ResponseReader
  | [] => .ok r
  | b :: rest =>
    match r.step b with
    | .ok r => run r rest
    | .error e => .error e

/-- The response that is there when the connection ends. -/
def finish (r : ResponseReader) : Except ResponseFault (Nat × Bytes) :=
  match r with
  | .opening _ | .fields _ _ _ => .error .incomplete
  | .body status read .untilClose => .ok (status, read.reverse)
  | .body _ _ _ => .error .badBody
  | .complete status read => .ok (status, read.reverse)

/-- Status and body of the response in what a connection delivers before it ends. -/
def read (s : Bytes) : Except ResponseFault (Nat × Bytes) :=
  match start.run s with
  | .ok r => r.finish
  | .error e => .error e

end ResponseReader

end GuideRig
