/-
# GuideRig.Json.Machine -- reading a record one byte at a time

The reader is a machine with a stack. Each byte takes it from one state to the next or stops it with
a cause, so what has been read of a document is a function of the bytes so far, and reading a longer
document is reading on from that state. A frame on the stack is a list or object that has been
opened, with what it is read for; values that nobody asked for are passed over with frames of their
own, and inside them neither texts nor numbers are evaluated.
-/

import GuideRig.Json.Shape

namespace GuideRig.Json

open Ascii

/-! ## States -/

/-- What the value that is due will be read for. -/
inductive Want where
  /-- It is passed over. -/
  | skip
  /-- It is read for a shape. -/
  | shape (s : Shape)
  /-- It is the document's record. -/
  | record

/-- Whether a value or key is only passed over. -/
def Want.isSkip : Want → Bool
  | .skip => true
  | _ => false

/-- A list or object that has been opened and not closed. -/
inductive Frame where
  /-- A list that is passed over. -/
  | skippedList
  /-- An object that is passed over. -/
  | skippedObject
  /-- A list of items of one shape, those read so far in reverse. -/
  | list (item : Shape) (got : List Datum)
  /-- A map with values of one shape, the entries so far in reverse, and the key last read. -/
  | map (item : Shape) (got : List (String × Datum)) (key : String)
  /-- The record's object form: what each field has been given, and the place of the field last
  named, if the record knows it. -/
  | record (got : List (Option Datum)) (field : Option Nat)
  /-- The record's list form: the fields given so far, in reverse. -/
  | tuple (got : List Datum)

/-- Where the reader stands in an escape. -/
inductive Escape where
  /-- In no escape. -/
  | none
  /-- After a backslash. -/
  | opened
  /-- In the digits of a code unit: how many are due, the value so far unless a byte was no digit,
  and the leading surrogate before it, if there was one. -/
  | unit (due : Nat) (value : Option Nat) (lead : Option Nat)
  /-- After a leading surrogate. -/
  | paired (lead : Nat)
  /-- After a leading surrogate and a backslash. -/
  | pairedOpened (lead : Nat)

/-- Where the reader stands in a number. -/
inductive Digit where
  /-- After the minus sign. -/
  | sign
  /-- After a leading zero. -/
  | zero
  /-- In the digits before the point. -/
  | integer
  /-- After the point. -/
  | point
  /-- In the digits after the point. -/
  | fraction
  /-- After the exponent mark. -/
  | mark
  /-- After the sign of the exponent. -/
  | markSign
  /-- In the digits of the exponent. -/
  | exponent
  deriving DecidableEq

/-- Whether a number may end here. -/
def Digit.mayEnd : Digit → Bool
  | .zero | .integer | .fraction | .exponent => true
  | .sign | .point | .mark | .markSign => false

/-- What the machine is in the middle of. -/
inductive Phase where
  /-- A value is due, perhaps after a comma. -/
  | value (want : Want) (afterComma : Bool)
  /-- A list or object has just been opened. -/
  | opened
  /-- A key is due after a comma. -/
  | key
  /-- A colon is due, and then a value. -/
  | colon (want : Want)
  /-- A comma or the end of the innermost list or object is due. -/
  | separator
  /-- A comma follows the last field of a record's list form. -/
  | surplus
  /-- Inside a string that is a key or a value; the content so far in reverse. -/
  | string (isKey : Bool) (want : Want) (content : Bytes) (escape : Escape)
  /-- Inside a number; the literal so far in reverse. -/
  | number (want : Want) (digit : Digit) (literal : Bytes)
  /-- Inside a word; its letters that are due, and what it stands for. -/
  | word (want : Want) (due : Bytes) (value : Scalar)
  /-- A fault that is reported after spaces and one closing brace. -/
  | doomed (cause : Cause)
  /-- The record has been read; its fields in order. -/
  | ended (fields : List Datum)

/-- The state of the reader. -/
structure Machine where
  stack : List Frame
  phase : Phase

namespace Machine

/-- Before the document. -/
def start : Machine := ⟨[], .value .record false⟩

/-- Space, tab, and the two ends of a line. -/
def isSpace (b : UInt8) : Bool :=
  b == byte ' ' || b == byte '\t' || b == byte '\n' || b == byte '\r'

/-- A cause noticed with the current byte consumed. -/
def stop {α : Type} (cause : Cause) : Except Stop α := .error (cause, 0)

/-- A cause noticed before the current byte. -/
def stopBefore {α : Type} (cause : Cause) : Except Stop α := .error (cause, 1)

/-! ## Values that are complete -/

/-- What the next item of the innermost list is read for. -/
def itemWant (r : Record) : List Frame → Want
  | .list item _ :: _ => .shape item
  | .tuple got :: _ => match r.fields[got.length]? with
    | some f => .shape f.shape
    | none => .skip
  | _ => .skip

/-- Hands a datum to the innermost list or object. -/
def deliver (d : Datum) : List Frame → Machine
  | .list item got :: rest => ⟨.list item (d :: got) :: rest, .separator⟩
  | .map item got key :: rest => ⟨.map item ((key, d) :: got) key :: rest, .separator⟩
  | .record got (some i) :: rest => ⟨.record (got.set i (some d)) (some i) :: rest, .separator⟩
  | .tuple got :: rest => ⟨.tuple (d :: got) :: rest, .separator⟩
  | stack => ⟨stack, .separator⟩

/-- Takes a scalar for what was wanted. -/
def takeScalar (r : Record) (stack : List Frame) (want : Want) (s : Scalar) :
    Except Stop Machine :=
  match want with
  | .skip => .ok ⟨stack, .separator⟩
  | .shape shape => match shape.accept s with
    | .ok d => .ok (deliver d stack)
    | .error e => .error e
  | .record => match s.found with
    | .ok found => .error (.wrongType found r.expected, 0)
    | .error e => .error e

/-- The fields of a record that has been read, defaults filled in, or the first that is missing. -/
def complete : List Field → List (Option Datum) → Except String (List Datum)
  | [], _ => .ok []
  | f :: fs, got =>
    match (got.head?.join).or f.default with
    | none => .error f.name
    | some d => (complete fs got.tail).map (d :: ·)

/-- Closes the innermost list or object. -/
def close (r : Record) : List Frame → Except Stop Machine
  | .skippedList :: rest => .ok ⟨rest, .separator⟩
  | .skippedObject :: rest => .ok ⟨rest, .separator⟩
  | .list _ got :: rest => .ok (deliver (.list got.reverse) rest)
  | .map _ got _ :: rest => .ok (deliver (.map got.reverse) rest)
  | .record got _ :: rest =>
    match complete r.fields got with
    | .ok fields => .ok ⟨rest, .ended fields⟩
    | .error name => stop (.missingField name)
  | .tuple got :: rest =>
    -- fields that are left out at the end of the list form have their defaults
    let left := r.fields.drop got.length
    match left.findIdx? fun f => f.default.isNone with
    | some i => stop (.wrongLength (got.length + i) r.expectedItems)
    | none => .ok ⟨rest, .ended (got.reverse ++ left.filterMap Field.default)⟩
  | [] => .ok ⟨[], .separator⟩

/-- Whether the innermost frame is a list. -/
def inList : List Frame → Bool
  | .skippedList :: _ => true
  | .list _ _ :: _ => true
  | .tuple _ :: _ => true
  | _ => false

/-- Whether the innermost frame is passed over. -/
def inSkipped : List Frame → Bool
  | .skippedList :: _ => true
  | .skippedObject :: _ => true
  | _ => false

/-- Whether the innermost frame is the record's list form with every field given. -/
def isFull (r : Record) : List Frame → Bool
  | .tuple got :: _ => decide (r.fields.length ≤ got.length)
  | _ => false

/-! ## The first byte of a value -/

/-- Opens a list for what is wanted. -/
def openList (stack : List Frame) : Want → Except Stop Machine
  | .skip => .ok ⟨.skippedList :: stack, .opened⟩
  | .shape (.list item) => .ok ⟨.list item [] :: stack, .opened⟩
  | .shape s => stopBefore (.wrongType .list s.expected)
  | .record => .ok ⟨.tuple [] :: stack, .opened⟩

/-- Opens an object for what is wanted. -/
def openObject (r : Record) (stack : List Frame) : Want → Except Stop Machine
  | .skip => .ok ⟨.skippedObject :: stack, .opened⟩
  | .shape (.map item) => .ok ⟨.map item [] "" :: stack, .opened⟩
  | .shape s => stopBefore (.wrongType .object s.expected)
  | .record => .ok ⟨.record (r.fields.map fun _ => none) none :: stack, .opened⟩

/-- A byte where a value is due. -/
def stepValue (r : Record) (stack : List Frame) (want : Want) (afterComma : Bool) (b : UInt8) :
    Except Stop Machine :=
  if isSpace b then .ok ⟨stack, .value want afterComma⟩
  else if b = byte 'n' then .ok ⟨stack, .word want (bytes "ull") .null⟩
  else if b = byte 't' then .ok ⟨stack, .word want (bytes "rue") (.flag true)⟩
  else if b = byte 'f' then .ok ⟨stack, .word want (bytes "alse") (.flag false)⟩
  else if b = byte '-' then .ok ⟨stack, .number want .sign [b]⟩
  else if b = byte '0' then .ok ⟨stack, .number want .zero [b]⟩
  else if isDigit b then .ok ⟨stack, .number want .integer [b]⟩
  else if b = byte '"' then .ok ⟨stack, .string false want [] .none⟩
  else if b = byte '[' then openList stack want
  else if b = byte '\x7b' then openObject r stack want
  else if b = byte ']' && afterComma && !inSkipped stack then stop .trailingComma
  else stop .expectedValue

/-! ## Keys and separators -/

/-- Starts a key; keys of an object that is passed over are not evaluated. -/
def openKey (stack : List Frame) : Machine :=
  ⟨stack, .string true (if inSkipped stack then .skip else .record) [] .none⟩

/-- Takes a key for the innermost object. -/
def takeKey (r : Record) (stack : List Frame) (key : String) : Machine :=
  match stack with
  | .map item got _ :: rest => ⟨.map item got key :: rest, .colon (.shape item)⟩
  | .record got _ :: rest =>
    match r.fields.findIdx? fun f => f.name == key with
    | none => ⟨.record got none :: rest, .colon .skip⟩
    | some i =>
      match got[i]?.join, r.fields[i]? with
      | none, some f => ⟨.record got (some i) :: rest, .colon (.shape f.shape)⟩
      | _, _ => ⟨stack, .doomed (.duplicateField key)⟩
  | _ => ⟨stack, .colon .skip⟩

/-- A byte just after a list or object was opened. -/
def stepOpened (r : Record) (stack : List Frame) (b : UInt8) : Except Stop Machine :=
  if isSpace b then .ok ⟨stack, .opened⟩
  else if inList stack then
    if b = byte ']' then close r stack else stepValue r stack (itemWant r stack) false b
  else if b = byte '\x7d' then close r stack
  else if b = byte '"' then .ok (openKey stack)
  else stop .keyNotText

/-- A byte where a key is due after a comma. -/
def stepKey (stack : List Frame) (b : UInt8) : Except Stop Machine :=
  if isSpace b then .ok ⟨stack, .key⟩
  else if b = byte '"' then .ok (openKey stack)
  else if b = byte '\x7d' && !inSkipped stack then stop .trailingComma
  else stop .keyNotText

/-- A byte where a comma or the end of the innermost list or object is due. -/
def stepSeparator (r : Record) (stack : List Frame) (b : UInt8) : Except Stop Machine :=
  if isSpace b then .ok ⟨stack, .separator⟩
  else if isFull r stack then
    if b = byte ',' then .ok ⟨stack, .surplus⟩
    else if b = byte ']' then close r stack
    else stop .trailingCharacters
  else if inList stack then
    if b = byte ',' then .ok ⟨stack, .value (itemWant r stack) true⟩
    else if b = byte ']' then close r stack
    else stop .expectedListSeparator
  else if b = byte ',' then .ok ⟨stack, .key⟩
  else if b = byte '\x7d' then close r stack
  else stop .expectedObjectSeparator

/-! ## Strings -/

/-- The byte that a one-letter escape stands for. -/
def shortEscape? (b : UInt8) : Option UInt8 :=
  if b = byte '"' || b = byte '\\' || b = byte '/' then some b
  else if b = byte 'b' then some 0x08
  else if b = byte 'f' then some 0x0C
  else if b = byte 'n' then some 0x0A
  else if b = byte 'r' then some 0x0D
  else if b = byte 't' then some 0x09
  else none

/-- The first unit of a pair. -/
def isLead (n : Nat) : Bool := 0xD800 ≤ n && n ≤ 0xDBFF

/-- The second unit of a pair. -/
def isTrail (n : Nat) : Bool := 0xDC00 ≤ n && n ≤ 0xDFFF

/-- The character of a pair of units. -/
def pairChar (lead trail : Nat) : Char :=
  Char.ofNat (0x10000 + (lead - 0xD800) * 0x400 + (trail - 0xDC00))

/-- Text of a string and the escape it is in after a whole code unit; the content is in reverse. -/
def takeUnit (content : Bytes) (lead : Option Nat) (n : Nat) : Except Stop (Bytes × Escape) :=
  match lead with
  | none =>
    if isTrail n then stop .loneSurrogate
    else if isLead n then .ok (content, .paired n)
    else .ok ((Utf8.ofChar (Char.ofNat n)).reverse ++ content, .none)
  | some l =>
    if isTrail n then .ok ((Utf8.ofChar (pairChar l n)).reverse ++ content, .none)
    else stop .loneSurrogate

/-- The end of a string: nothing is made of one that is passed over; another has to be UTF-8. -/
def takeString (r : Record) (stack : List Frame) (isKey : Bool) (want : Want) (content : Bytes) :
    Except Stop Machine :=
  if want.isSkip then
    .ok (if isKey then ⟨stack, .colon .skip⟩ else ⟨stack, .separator⟩)
  else
    let text := content.reverse
    match Utf8.decode? text with
    -- reported where the first ill-formed piece begins, however much of the string follows it
    | none => .error (.badCodePoint, text.length - Utf8.wellFormedLength text)
    | some s => if isKey then .ok (takeKey r stack s) else takeScalar r stack want (.text s)

/-- A byte inside a string. -/
def stepString (r : Record) (stack : List Frame) (isKey : Bool) (want : Want) (content : Bytes)
    (escape : Escape) (b : UInt8) : Except Stop Machine :=
  match escape with
  | .none =>
    if b = byte '"' then takeString r stack isKey want content
    else if b = byte '\\' then .ok ⟨stack, .string isKey want content .opened⟩
    else if b < 0x20 then
      if want.isSkip then stopBefore .controlCharacter else stop .controlCharacter
    else .ok ⟨stack, .string isKey want (b :: content) .none⟩
  | .opened =>
    if b = byte 'u' then .ok ⟨stack, .string isKey want content (.unit 4 (some 0) none)⟩
    else match shortEscape? b with
      | some c => .ok ⟨stack, .string isKey want (c :: content) .none⟩
      | none => stop .badEscape
  | .unit due value lead =>
    let value := match value, hexValue? b with
      | some v, some d => some (v * 16 + d)
      | _, _ => none
    -- a bad digit is noticed only when all four have been read
    if 1 < due then .ok ⟨stack, .string isKey want content (.unit (due - 1) value lead)⟩
    else match value with
      | none => stop .badEscape
      | some n =>
        if want.isSkip then .ok ⟨stack, .string isKey want content .none⟩
        else match takeUnit content lead n with
          | .ok (content, escape) => .ok ⟨stack, .string isKey want content escape⟩
          | .error e => .error e
  | .paired lead =>
    if b = byte '\\' then .ok ⟨stack, .string isKey want content (.pairedOpened lead)⟩
    else stop .unfinishedSurrogate
  | .pairedOpened lead =>
    if b = byte 'u' then .ok ⟨stack, .string isKey want content (.unit 4 (some 0) (some lead))⟩
    else stop .unfinishedSurrogate

/-! ## Numbers and words -/

/-- Where a byte takes a number: on, to its end before the byte, or nowhere. -/
inductive Next where
  | on (digit : Digit)
  | past
  | bad

/-- What a byte is to a number. -/
def nextDigit (d : Digit) (b : UInt8) : Next :=
  let isMark := b == byte 'e' || b == byte 'E'
  match d with
  | .sign => if b = byte '0' then .on .zero else if isDigit b then .on .integer else .bad
  | .zero =>
    if isDigit b then .bad else if b = byte '.' then .on .point
    else if isMark then .on .mark else .past
  | .integer =>
    if isDigit b then .on .integer else if b = byte '.' then .on .point
    else if isMark then .on .mark else .past
  | .point => if isDigit b then .on .fraction else .bad
  | .fraction => if isDigit b then .on .fraction else if isMark then .on .mark else .past
  | .mark =>
    if b = byte '+' || b = byte '-' then .on .markSign
    else if isDigit b then .on .exponent else .bad
  | .markSign => if isDigit b then .on .exponent else .bad
  | .exponent => if isDigit b then .on .exponent else .past

/-- A byte inside a number. The byte after a number is not part of it: it is a separator of what the
number stands in. -/
def stepNumber (r : Record) (stack : List Frame) (want : Want) (d : Digit) (literal : Bytes)
    (b : UInt8) : Except Stop Machine :=
  match nextDigit d b with
  | .on d => .ok ⟨stack, .number want d (b :: literal)⟩
  | .bad => stop .badNumber
  | .past =>
    match takeScalar r stack want (.number literal.reverse) with
    -- the number ended before this byte, so its fault lies one byte further back
    | .error (cause, back) => .error (cause, back + 1)
    | .ok m => stepSeparator r m.stack b

/-- A byte inside a word. -/
def stepWord (r : Record) (stack : List Frame) (want : Want) (due : Bytes) (value : Scalar)
    (b : UInt8) : Except Stop Machine :=
  match due with
  | [] => stop .expectedWord
  | [c] => if b = c then takeScalar r stack want value else stop .expectedWord
  | c :: due => if b = c then .ok ⟨stack, .word want due value⟩ else stop .expectedWord

/-! ## Steps and runs -/

/-- One byte. -/
def step (r : Record) (m : Machine) (b : UInt8) : Except Stop Machine :=
  match m.phase with
  | .value want afterComma => stepValue r m.stack want afterComma b
  | .opened => stepOpened r m.stack b
  | .key => stepKey m.stack b
  | .colon want =>
    if isSpace b then .ok m
    else if b = byte ':' then .ok ⟨m.stack, .value want false⟩
    else stop .expectedColon
  | .separator => stepSeparator r m.stack b
  | .surplus =>
    if isSpace b then .ok m
    else if b = byte ']' then stop .trailingComma
    else stop .trailingCharacters
  | .string isKey want content escape => stepString r m.stack isKey want content escape b
  | .number want d literal => stepNumber r m.stack want d literal b
  | .word want due value => stepWord r m.stack want due value b
  | .doomed cause =>
    if isSpace b then .ok m
    else if b = byte '\x7d' then stop cause
    else stopBefore cause
  | .ended _ => if isSpace b then .ok m else stop .trailingCharacters

/-- Reads on from a state. -/
def run (r : Record) (m : Machine) : Bytes → Except Fault Machine
  | [] => .ok m
  | b :: rest =>
    match m.step r b with
    | .ok m => run r m rest
    | .error (cause, back) => .error ⟨cause, rest.length + back⟩

/-- What the end of the document means inside a list or object. -/
def unfinished (stack : List Frame) : Cause :=
  if inList stack then .unfinishedList else .unfinishedObject

/-- The end of the document. -/
def finish (r : Record) (m : Machine) : Except Fault (List Datum) :=
  match m.phase with
  | .ended fields => .ok fields
  | .value _ _ => .error ⟨.unfinishedValue, 0⟩
  | .opened => .error ⟨unfinished m.stack, 0⟩
  | .key => .error ⟨if inSkipped m.stack then .unfinishedObject else .unfinishedValue, 0⟩
  | .colon _ => .error ⟨.unfinishedObject, 0⟩
  | .separator => .error ⟨unfinished m.stack, 0⟩
  | .surplus => .error ⟨.trailingCharacters, 0⟩
  | .string _ _ _ _ => .error ⟨.unfinishedString, 0⟩
  | .number want d literal =>
    if d.mayEnd then
      match takeScalar r m.stack want (.number literal.reverse) with
      | .error (cause, back) => .error ⟨cause, back⟩
      | .ok m => .error ⟨unfinished m.stack, 0⟩
    else .error ⟨if want.isSkip then .badNumber else .unfinishedValue, 0⟩
  | .word _ _ _ => .error ⟨.unfinishedValue, 0⟩
  | .doomed cause => .error ⟨cause, 0⟩

end Machine

/-- Reads a document for a record: the data of its fields, in the record's order. -/
def Record.read (r : Record) (doc : Bytes) : Except Fault (List Datum) :=
  match Machine.start.run r doc with
  | .ok m => m.finish r
  | .error f => .error f

end GuideRig.Json
