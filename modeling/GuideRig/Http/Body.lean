/-
# GuideRig.Http.Body -- where the body of a message ends

A body is so many bytes, or a row of chunks up to an empty one, or all that comes before the
connection ends. `BodyPhase.step` takes one byte of what follows a head: it tells whether the byte
belongs to the body itself or only to its framing, and how the body goes on, if it does. Bodies of
the first two kinds carry their own end, so they cannot be cut without being seen to be cut.

Nobody here asks for what else chunks may carry, words beside their sizes and fields in a trailer after
the empty one. Both are read and held against their limits all the same, since a body that breaks them
is no body.
-/

import GuideRig.Http.Fields
import GuideRig.Number.Power

namespace GuideRig

open Ascii

/-- The trailer of a body that comes in chunks: what comes after the empty one. -/
structure Trailer where
  /-- Its bytes so far, in reverse. -/
  read : Bytes
  /-- How many of its lines have ended. -/
  lines : Nat
  deriving DecidableEq, Repr

/-- Where the reader stands in a body that comes in chunks. -/
inductive ChunkPhase where
  | start
  | size (value : Nat)
  | sizeGap (value : Nat)
  | extension (value : Nat)
  | sizeEnd (value : Nat)
  | data (due : Nat)
  | dataEnd
  | dataLineEnd
  /-- At the begin of a line of the trailer. -/
  | last (trailer : Trailer)
  | trailer (trailer : Trailer)
  | trailerEnd (trailer : Trailer)
  | lastEnd (trailer : Trailer)
  deriving DecidableEq, Repr

/-- How a body goes on. -/
inductive BodyPhase where
  /-- So many bytes are due, and at least one. -/
  | counted (due : Nat)
  /-- It comes in chunks. The bytes of extensions are counted, for all of its chunks together. -/
  | chunked (extended : Nat) (phase : ChunkPhase)
  /-- It ends with the connection. -/
  | untilClose
  deriving DecidableEq, Repr

/-- What a byte is for a body. -/
structure BodyStep where
  /-- Whether the byte belongs to the body itself. -/
  isContent : Bool
  /-- How the body goes on; it has ended if it does not. -/
  next : Option BodyPhase
  deriving DecidableEq, Repr

/-! ## What a head says of the body -/

namespace FieldBlock

/-- The one length that all values of the length field agree on. -/
def length? (values : List Bytes) : Option Nat :=
  match (values.flatMap items).mapM fun i => (number? i).bind fun n =>
      if n < twoTo 64 then some n else none with
  | some (n :: ns) => if ns.all (· == n) then some n else none
  | _ => none

/-- Whether the last of the codings is the chunked one. -/
def isChunked (codings : List Bytes) : Bool :=
  match codings.getLast? with
  | some v => match (items v).getLast? with
    | some last => sameLetters last (bytes "chunked")
    | none => false
  | none => false

/-- The values that tell of a coding. -/
def codings (block : FieldBlock) : List Bytes := block.values "transfer-encoding"

/-- The values that tell of a length. -/
def lengths (block : FieldBlock) : List Bytes := block.values "content-length"

/-- The largest length that a message may announce. -/
def mostLength : Nat := twoTo 64 - 3

end FieldBlock

/-! ## Trailers -/

namespace Trailer

/-- Before a trailer. -/
def start : Trailer := ⟨[], 0⟩

/-- A trailer stays below so many bytes, with the empty line at its end. -/
def mostBytes : Nat := 16384

/-- A trailer with one more byte, if there is room for it. -/
def push (t : Trailer) (b : UInt8) : Option Trailer :=
  if t.read.length + 1 < mostBytes then some { t with read := b :: t.read } else none

/-- A trailer whose line has ended with its second half, if it may have one more line. -/
def endLine (t : Trailer) : Option Trailer :=
  if t.lines < FieldBlock.most then (t.push (byte '\n')).map fun t => { t with lines := t.lines + 1 }
  else none

/-- Whether a trailer whose empty line has ended holds fields, and no more of them than lines. -/
def isWhole (t : Trailer) : Bool :=
  decide (t.lines < FieldBlock.most) &&
    (FieldReader.start.block? t.read.reverse).any fun block => block.length ≤ t.lines

end Trailer

/-! ## One byte -/

/-- All extensions of a body stay below so many bytes. -/
def ChunkPhase.mostExtended : Nat := 16384

/-- A byte of a body that comes in chunks; nothing if the chunks are badly framed. -/
def ChunkPhase.step (extended : Nat) (p : ChunkPhase) (b : UInt8) : Option BodyStep :=
  let on (p : ChunkPhase) : Option BodyStep := some ⟨false, some (.chunked extended p)⟩
  match p with
  | .start => (hexValue? b).bind fun d => on (.size d)
  | .size n => match hexValue? b with
    -- a size that 64 bits do not hold is no size
    | some d => if n * 16 + d < twoTo 64 then on (.size (n * 16 + d)) else none
    | none =>
      if FieldBlock.isGap b then on (.sizeGap n)
      else if b = byte ';' then on (.extension n)
      else if b = byte '\r' then on (.sizeEnd n)
      else none
  | .sizeGap n =>
    if FieldBlock.isGap b then on (.sizeGap n)
    else if b = byte ';' then on (.extension n)
    else if b = byte '\r' then on (.sizeEnd n)
    else none
  | .extension n =>
    if b = byte '\r' then on (.sizeEnd n)
    else if b = byte '\n' then none
    else if extended + 1 < mostExtended then
      some ⟨false, some (.chunked (extended + 1) (.extension n))⟩
    else none
  | .sizeEnd n =>
    if b = byte '\n' then (if n = 0 then on (.last .start) else on (.data n)) else none
  | .data due => some ⟨true, some (.chunked extended (if due ≤ 1 then .dataEnd else .data (due - 1)))⟩
  | .dataEnd => if b = byte '\r' then on .dataLineEnd else none
  | .dataLineEnd => if b = byte '\n' then on .start else none
  | .last t => (t.push b).bind fun t => on (if b = byte '\r' then .lastEnd t else .trailer t)
  | .trailer t => (t.push b).bind fun t => on (if b = byte '\r' then .trailerEnd t else .trailer t)
  | .trailerEnd t => if b = byte '\n' then t.endLine.bind fun t => on (.last t) else none
  | .lastEnd t =>
    if b = byte '\n' then (t.push b).bind fun t => if t.isWhole then some ⟨false, none⟩ else none
    else none

/-- A byte of a body; nothing if it is badly framed. -/
def BodyPhase.step (p : BodyPhase) (b : UInt8) : Option BodyStep :=
  match p with
  | .counted due => some ⟨true, if due ≤ 1 then none else some (.counted (due - 1))⟩
  | .chunked extended p => p.step extended b
  | .untilClose => some ⟨true, some .untilClose⟩

end GuideRig
