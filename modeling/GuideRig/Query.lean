/-
# GuideRig.Query -- form queries: `name=value` pairs joined by `&`

A form query is cut at every `&` into pieces; an empty piece is no pair, and a piece is cut at its
first `=` into name and value. In both a plus sign stands for a space and an escape for the byte
it names. Writing (`encode`) and reading (`pairs`) are separate definitions over bytes; texts
enter and leave them in UTF-8, a piece of a name or value that is no character reading as U+FFFD.
-/

import GuideRig.Text.Percent

namespace GuideRig.Query

open Ascii

/-! ## Reading -/

/-- The pieces between the `&` signs, empty ones included. -/
def cut : Bytes → List Bytes
  | [] => [[]]
  | b :: r =>
    if b = byte '&' then [] :: cut r
    else match cut r with
      | [] => [[b]]
      | p :: ps => (b :: p) :: ps

/-- Name and value of a piece: what stands before and after its first `=`. A piece with no `=` has
the empty value. -/
def split (piece : Bytes) : Bytes × Bytes :=
  (piece.takeWhile (· != byte '='), (piece.dropWhile (· != byte '=')).drop 1)

/-- A name or value with its plus signs and escapes read. -/
def decode (s : Bytes) : Bytes :=
  Percent.decode (s.map fun b => if b = byte '+' then byte ' ' else b)

/-- The pairs of a query as bytes, in order. -/
def bytePairs (query : Bytes) : List (Bytes × Bytes) :=
  ((cut query).filter (!·.isEmpty)).map fun piece =>
    (decode (split piece).1, decode (split piece).2)

/-- The pairs of a query as texts, in order. -/
def pairs (query : Bytes) : List (String × String) :=
  (bytePairs query).map fun (name, value) => (Utf8.lossy name, Utf8.lossy value)

/-! ## Writing -/

/-- The bytes that stand for themselves in a form query. -/
def isPlain (b : UInt8) : Bool :=
  isAlphanumeric b || b == byte '*' || b == byte '-' || b == byte '.' || b == byte '_'

/-- A name or value as a form query writes it. -/
def encode (s : String) : Bytes :=
  (Utf8.encode s).flatMap fun b =>
    if b = byte ' ' then [byte '+'] else if isPlain b then [b] else Percent.escape b

/-- The query of one pair. -/
def ofPair (name value : String) : Bytes :=
  encode name ++ byte '=' :: encode value

end GuideRig.Query
