/-
# GuideRig.Json.Shape -- what a document is asked to hold

A document is read for a record: named fields, each of a shape and perhaps with a default. The
shapes are the few that configurations and events are made of. A value read for a shape is a
`Datum`; `Shape.accept` says which scalars a shape takes and what is wrong with any other.
-/

import GuideRig.Json.Fault
import GuideRig.Number.Power

namespace GuideRig.Json

/-- A range of whole numbers and its name. -/
structure WholeRange where
  low : Int
  high : Int
  name : String
  deriving DecidableEq, Repr

/-- The numbers of 32 bits. -/
def WholeRange.u32 : WholeRange := ⟨0, twoTo 32 - 1, "u32"⟩

/-- The signed numbers of 64 bits. -/
def WholeRange.i64 : WholeRange := ⟨-(twoTo 63 : Int), twoTo 63 - 1, "i64"⟩

/-- What a value is asked to be. -/
inductive Shape where
  | text
  | flag
  | whole (range : WholeRange)
  | list (item : Shape)
  | map (item : Shape)
  deriving DecidableEq, Repr

/-- A value read for a shape. A map keeps its entries in the order of the document, repeated names
included. -/
inductive Datum where
  | text (value : String)
  | flag (value : Bool)
  | whole (value : Int)
  | list (items : List Datum)
  | map (entries : List (String × Datum))

/-- A field of a record. -/
structure Field where
  name : String
  shape : Shape
  default : Option Datum

/-- What a whole document is asked to be. -/
structure Record where
  name : String
  fields : List Field

/-- A value that is neither list nor object, a number being held by its literal. -/
inductive Scalar where
  | null
  | flag (value : Bool)
  | text (value : String)
  | number (literal : Bytes)
  deriving DecidableEq, Repr

/-- The shape in words. -/
def Shape.expected : Shape → String
  | .text => "a string"
  | .flag => "a boolean"
  | .whole r => r.name
  | .list _ => "a sequence"
  | .map _ => "a map"

/-- The record in words. -/
def Record.expected (r : Record) : String := "struct " ++ r.name

/-- The record in words, for its list form. -/
def Record.expectedItems (r : Record) : String :=
  "struct " ++ r.name ++ " with " ++ toString r.fields.length ++ " elements"

/-- A cause and how many of the consumed bytes it comes before the end of. -/
abbrev Stop := Cause × Nat

/-- What a scalar is found to be. The literal of a number is evaluated first, and may be out of
range whatever was asked for. -/
def Scalar.found : Scalar → Except Stop Found
  | .null => .ok .null
  | .flag b => .ok (.flag b)
  | .text s => .ok (.text s)
  | .number lit =>
    match Number.ofLiteral (Literal.ofBytes lit) with
    | .ok n => .ok (.number n)
    | .error back => .error (.numberOutOfRange, back)

/-- The datum that a shape takes a scalar for, or what is wrong with it. -/
def Shape.accept (shape : Shape) (s : Scalar) : Except Stop Datum :=
  match s.found with
  | .error stop => .error stop
  | .ok found =>
    match shape, found with
    | .text, .text s => .ok (.text s)
    | .flag, .flag b => .ok (.flag b)
    | .whole r, .number (.whole v) =>
      if r.low ≤ v && v ≤ r.high then .ok (.whole v)
      else .error (.wrongValue found r.name, 0)
    | _, _ => .error (.wrongType found shape.expected, 0)

end GuideRig.Json
