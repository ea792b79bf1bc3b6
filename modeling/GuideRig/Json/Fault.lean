/-
# GuideRig.Json.Fault -- why a document could not be read, and where

A fault is a cause and the number of bytes that had not been consumed when it was noticed. Causes
come in three categories: the document ends too early, it is no JSON, or it is JSON of another
shape than asked for. The wording of every cause is in `Cause.message`.
-/

import GuideRig.Json.Number

namespace GuideRig.Json

/-- What stood in the document where something else was asked for. -/
inductive Found where
  | null
  | flag (value : Bool)
  | number (value : Number)
  | text (value : String)
  | list
  | object
  deriving DecidableEq, Repr

/-- Why a document could not be read. -/
inductive Cause where
  /-- The document ends inside a list. -/
  | unfinishedList
  /-- The document ends inside an object. -/
  | unfinishedObject
  /-- The document ends inside a string. -/
  | unfinishedString
  /-- The document ends where a value is due, or inside one. -/
  | unfinishedValue
  | expectedColon
  | expectedListSeparator
  | expectedObjectSeparator
  | expectedWord
  | expectedValue
  | badEscape
  | badNumber
  | numberOutOfRange
  | badCodePoint
  | controlCharacter
  | keyNotText
  | loneSurrogate
  | unfinishedSurrogate
  | trailingComma
  | trailingCharacters
  /-- A field without default is not given. -/
  | missingField (name : String)
  /-- A field is given twice. -/
  | duplicateField (name : String)
  /-- A value of another kind than asked for. -/
  | wrongType (found : Found) (expected : String)
  /-- A value of the right kind outside the accepted range. -/
  | wrongValue (found : Found) (expected : String)
  /-- The list form of a record with too few items. -/
  | wrongLength (length : Nat) (expected : String)
  deriving DecidableEq, Repr

/-- The three kinds of fault. -/
inductive Category where
  | ended
  | malformed
  | mismatched
  deriving DecidableEq, Repr

/-- The category of a cause. -/
def Cause.category : Cause → Category
  | .unfinishedList | .unfinishedObject | .unfinishedString | .unfinishedValue => .ended
  | .missingField _ | .duplicateField _ | .wrongType _ _ | .wrongValue _ _ | .wrongLength _ _ =>
    .mismatched
  | _ => .malformed

/-- A double with its sign, as a report shows it. -/
def signed (negative : Bool) (text : Bytes) : String :=
  Ascii.text (if negative then Ascii.byte '-' :: text else text)

/-- What was found, in words. -/
def Found.message : Found → String
  | .null => "null"
  | .flag b => "boolean `" ++ (if b then "true" else "false") ++ "`"
  | .number (.whole v) => "integer `" ++ Ascii.text (Ascii.decimalInt v) ++ "`"
  | .number (.decimal neg v) => "floating point `" ++ signed neg (v.text .report) ++ "`"
  | .text s => "string \"" ++ s ++ "\""
  | .list => "sequence"
  | .object => "map"

/-- The cause in words. -/
def Cause.message : Cause → String
  | .unfinishedList => "EOF while parsing a list"
  | .unfinishedObject => "EOF while parsing an object"
  | .unfinishedString => "EOF while parsing a string"
  | .unfinishedValue => "EOF while parsing a value"
  | .expectedColon => "expected `:`"
  | .expectedListSeparator => "expected `,` or `]`"
  | .expectedObjectSeparator => "expected `,` or `\x7d`"
  | .expectedWord => "expected ident"
  | .expectedValue => "expected value"
  | .badEscape => "invalid escape"
  | .badNumber => "invalid number"
  | .numberOutOfRange => "number out of range"
  | .badCodePoint => "invalid unicode code point"
  | .controlCharacter => "control character (\\u0000-\\u001F) found while parsing a string"
  | .keyNotText => "key must be a string"
  | .loneSurrogate => "lone leading surrogate in hex escape"
  | .unfinishedSurrogate => "unexpected end of hex escape"
  | .trailingComma => "trailing comma"
  | .trailingCharacters => "trailing characters"
  | .missingField name => "missing field `" ++ name ++ "`"
  | .duplicateField name => "duplicate field `" ++ name ++ "`"
  | .wrongType found expected => "invalid type: " ++ found.message ++ ", expected " ++ expected
  | .wrongValue found expected => "invalid value: " ++ found.message ++ ", expected " ++ expected
  | .wrongLength n expected => "invalid length " ++ toString n ++ ", expected " ++ expected

/-! ## Places -/

/-- A place in a document: lines count from 1, and a column is the number of bytes of its line that
stand before the place. -/
structure Position where
  line : Nat
  column : Nat
  deriving DecidableEq, Repr

/-- The place after the given bytes. -/
def Position.after (consumed : Bytes) : Position :=
  consumed.foldl (fun p b => if b = Ascii.byte '\n' then ⟨p.line + 1, 0⟩ else ⟨p.line, p.column + 1⟩)
    ⟨1, 0⟩

/-- A cause and how many bytes of the document were left. -/
structure Fault where
  cause : Cause
  left : Nat
  deriving DecidableEq, Repr

/-- A cause and its place: what a report needs to know of a fault. -/
structure Report where
  cause : Cause
  position : Position
  deriving DecidableEq, Repr

/-- The report on a fault in a document. -/
def Fault.report (doc : Bytes) (f : Fault) : Report :=
  ⟨f.cause, Position.after (doc.take (doc.length - f.left))⟩

/-- The report in words. -/
def Report.message (r : Report) : String :=
  r.cause.message ++ " at line " ++ toString r.position.line ++ " column " ++
    toString r.position.column

end GuideRig.Json
