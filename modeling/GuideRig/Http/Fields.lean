/-
# GuideRig.Http.Fields -- the header fields of a message, read one byte at a time

After its first line, the head of a message is a block of fields, one to a line, up to an empty line.
Requests and responses share this block, so it has a machine of its own: `step` takes one byte, and
the block has ended where it answers `ended`. Names come out in small letters and values without the
gaps around them. What a field says of the rest of the message is asked of the block as a whole
(`values`), since a field may stand there more than once. Where all bytes of a block are there already,
`block?` reads it at once.

The fields of a block are limited in number (`most`) but not in size. A limit on the bytes of a head
comes with the buffer that a connection gathers them in, and whether a head of some 400 kilobytes still
fits there depends on the pieces in which it arrives, of which a reader of bytes knows nothing.
-/

import GuideRig.Text.Ascii

namespace GuideRig

open Ascii

/-- Fields by name and value, the last one first. -/
abbrev FieldBlock := List (Bytes × Bytes)

/-- What is wrong with a block of fields. -/
inductive FieldFault where
  | malformed
  | tooMany
  deriving DecidableEq, Repr

/-- Where the reader stands in a block. -/
inductive FieldPhase where
  /-- At the begin of a line. -/
  | line
  /-- In the name of a field, in reverse. -/
  | name (read : Bytes)
  /-- In the value of a field, in reverse. -/
  | value (name : Bytes) (read : Bytes)
  /-- The second half of a field's end is due. -/
  | valueEnd (name : Bytes) (read : Bytes)
  /-- The second half of the block's end is due. -/
  | lineEnd
  deriving DecidableEq, Repr

/-- A block that is being read. -/
inductive FieldReader where
  | reading (block : FieldBlock) (phase : FieldPhase)
  | ended (block : FieldBlock)
  deriving DecidableEq, Repr

/-! ## Bytes of fields -/

namespace FieldBlock

/-- A byte of a name. -/
def inName (b : UInt8) : Bool := isAlphanumeric b || (bytes "!#$%&'*+-.^_|~").contains b || b == 0x60

/-- A byte of a text that is not interpreted, such as a value. -/
def inText (b : UInt8) : Bool := b == byte '\t' || (0x20 ≤ b && b != 0x7F)

/-- A space or a tab. -/
def isGap (b : UInt8) : Bool := b == byte ' ' || b == byte '\t'

/-- Bytes in reverse without the gaps at their end, in order. -/
def trimmed (read : Bytes) : Bytes := (read.dropWhile isGap).reverse

/-- The most fields a block may have. -/
def most : Nat := 100

/-- The block with one more field, whose value is in reverse. -/
def withField (block : FieldBlock) (name read : Bytes) : FieldBlock :=
  (lowercase name, trimmed read) :: block

/-! ## What a block says -/

/-- The values of a field, in order. -/
def values (block : FieldBlock) (name : String) : List Bytes :=
  (block.reverse.filter fun f => f.1 == bytes name).map (·.2)

/-- The pieces of a value between commas. -/
def pieces : Bytes → List Bytes
  | [] => [[]]
  | b :: r =>
    if b = byte ',' then [] :: pieces r
    else match pieces r with
      | [] => [[b]]
      | p :: ps => (b :: p) :: ps

/-- The items of a value between commas, without the gaps around them. -/
def items (value : Bytes) : List Bytes :=
  (pieces value).map fun s => trimmed ((s.dropWhile isGap).reverse)

end FieldBlock

/-! ## One byte -/

namespace FieldReader

open FieldBlock

/-- Before the first field. -/
def start : FieldReader := .reading [] .line

/-- A byte of a value. -/
def stepValue (block : FieldBlock) (name read : Bytes) (b : UInt8) : Except FieldFault FieldReader :=
  if b = byte '\r' then .ok (.reading block (.valueEnd name read))
  else if b = byte '\n' then .ok (.reading (block.withField name read) .line)
  else if isGap b && read.isEmpty then .ok (.reading block (.value name []))
  else if inText b then .ok (.reading block (.value name (b :: read)))
  else .error .malformed

/-- A byte of a block. -/
def step (block : FieldBlock) (p : FieldPhase) (b : UInt8) : Except FieldFault FieldReader :=
  match p with
  | .line =>
    if b = byte '\r' then .ok (.reading block .lineEnd)
    else if b = byte '\n' then .ok (.ended block)
    else if most ≤ block.length then .error .tooMany
    else if inName b then .ok (.reading block (.name [b]))
    else .error .malformed
  | .name read =>
    if b = byte ':' then .ok (.reading block (.value read.reverse []))
    else if inName b then .ok (.reading block (.name (b :: read)))
    else .error .malformed
  | .value name read => stepValue block name read b
  | .valueEnd name read =>
    if b = byte '\n' then .ok (.reading (block.withField name read) .line) else .error .malformed
  | .lineEnd => if b = byte '\n' then .ok (.ended block) else .error .malformed

/-! ## Runs -/

/-- The block that ends somewhere in the bytes. What comes after its end counts for nothing. -/
def block? (r : FieldReader) (s : Bytes) : Option FieldBlock :=
  match r, s with
  | .ended block, _ => some block
  | .reading _ _, [] => none
  | .reading block p, b :: rest =>
    match step block p b with
    | .ok r => r.block? rest
    | .error _ => none

end FieldReader

end GuideRig
