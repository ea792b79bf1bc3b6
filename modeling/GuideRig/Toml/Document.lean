/-
# GuideRig.Toml.Document -- reading a document

A document is a sequence of lines: entries, headers, comments and empty lines. Values may be lists
and tables in line, nested at most so deep. A text that is no document has no table; nothing more is
said about why. `Document` also turns the places of the table's entries into lines and columns.
-/

import GuideRig.Toml.Scalar
import GuideRig.Toml.Text

namespace GuideRig.Toml

/-! ## Blanks, comments and line ends -/

/-- A space or a tab. -/
def isBlank (c : Char) : Bool := c == ' ' || c == '\t'

/-- Without the blanks in front. -/
def blanks (s : List Char) : List Char := s.dropWhile isBlank

/-- Without the comment that begins here, if one does. -/
def comment (s : List Char) : List Char :=
  match s with
  | '#' :: r => r.dropWhile inComment
  | _ => s

/-- The end of a line, or of the document. -/
def readLineEnd : List Char → Option (List Char)
  | [] => some []
  | '\n' :: r => some r
  | '\r' :: '\n' :: r => some r
  | _ => none

/-- The rest of a line on which nothing more may stand. -/
def endLine (s : List Char) : Option (List Char) := readLineEnd (comment (blanks s))

/-- Without the blanks, comments and line ends in front. A comment needs a line end. -/
def skipLines : Nat → List Char → List Char
  | 0, s => s
  | fuel + 1, s =>
    match blanks s with
    | '\n' :: r => skipLines fuel r
    | '\r' :: '\n' :: r => skipLines fuel r
    | '#' :: r => skipLines fuel (r.dropWhile inComment)
    | t => t

/-! ## Keys -/

/-- A character of a key without quotes. -/
def inBareKey (c : Char) : Bool :=
  isDigit c || ('a' ≤ c && c ≤ 'z') || ('A' ≤ c && c ≤ 'Z') || c == '_' || c == '-'

/-- One part of a key. -/
def readKey (s : List Char) : Option (String × List Char) :=
  match s with
  | [] => none
  | c :: _ =>
    if c = '"' || c = '\'' then Text.readQuoted false s
    else if inBareKey c then some (String.ofList (s.takeWhile inBareKey), s.dropWhile inBareKey)
    else none

/-- How many parts a key may have. -/
def keyLimit : Nat := 79

/-- A key of at most so many parts with points between them. -/
def readPath : Nat → List Char → Option (List Key × List Char)
  | 0, _ => none
  | parts + 1, s =>
    match readKey (blanks s) with
    | none => none
    | some (name, r) =>
      let key : Key := ⟨name, (blanks s).length⟩
      match blanks r with
      | '.' :: t => (readPath parts t).map fun (keys, rest) => (key :: keys, rest)
      | t => some ([key], t)

/-! ## Values -/

/-- How deep lists and tables may be nested in line. -/
def depthLimit : Nat := 79

/-- A table in line with one more entry. -/
def putInline (t : Table) (path : List Key) (v : Value) (left : Nat) : Option Table :=
  match path.getLast? with
  | none => none
  | some key => t.put path.dropLast key (.value v left)

mutual

/-- A value. -/
def readValue : Nat → Nat → List Char → Option (Value × List Char)
  | 0, _, _ => none
  | fuel + 1, depth, s =>
    match s with
    | [] => none
    | c :: r =>
      if c = '"' || c = '\'' then (Text.readQuoted true s).map fun (t, rest) => (.text t, rest)
      -- every bracket and brace takes one from the depth that is left
      else if c = '[' then
        if depth = 0 then none else (readItems fuel (depth - 1) r).map fun rest => (.list, rest)
      else if c = '\x7b' then
        if depth = 0 then none
        else match blanks r with
          | '\x7d' :: rest => some (.table, rest)
          | t => (readPairs fuel (depth - 1) (.empty .header) t).map fun rest => (.table, rest)
      else readScalar s

/-- The items of a list and its end. -/
def readItems : Nat → Nat → List Char → Option (List Char)
  | 0, _, _ => none
  | fuel + 1, depth, s =>
    match skipLines s.length s with
    | ']' :: r => some r
    | t =>
      match readValue fuel depth t with
      | none => none
      | some (_, r) =>
        match skipLines r.length r with
        | ',' :: u => readItems fuel depth u
        | ']' :: u => some u
        | _ => none

/-- The entries of a table in line and its end. -/
def readPairs : Nat → Nat → Table → List Char → Option (List Char)
  | 0, _, _, _ => none
  | fuel + 1, depth, t, s =>
    match readPath keyLimit s with
    | some (path, '=' :: r) =>
      match readValue fuel depth (blanks r) with
      | none => none
      | some (v, r) =>
        match putInline t path v 0 with
        | none => none
        | some t =>
          match blanks r with
          | ',' :: u => readPairs fuel depth t u
          | '\x7d' :: u => some u
          | _ => none
    | _ => none

end

/-! ## Lines -/

/-- Steps that are always enough for the values in a text. -/
def enough (s : List Char) : Nat := 2 * s.length + 4

/-- An entry on a line of its own. -/
def readEntry (d : Draft) (s : List Char) : Option (Draft × List Char) :=
  match readPath keyLimit s with
  | some (path, '=' :: r) =>
    let r := blanks r
    match readValue (enough r) depthLimit r, path.getLast? with
    | some (v, rest), some key =>
      match d.put path.dropLast key (.value v r.length), endLine rest with
      | some d, some rest => some (d, rest)
      | _, _ => none
    | _, _ => none
  | _ => none

/-- A header on a line of its own. -/
def readHeader (d : Draft) (s : List Char) : Option (Draft × List Char) :=
  match s with
  | '[' :: '[' :: r =>
    match readPath keyLimit r with
    | some (path, ']' :: ']' :: t) =>
      match d.openListed path s.length, endLine t with
      | some d, some rest => some (d, rest)
      | _, _ => none
    | _ => none
  | '[' :: r =>
    match readPath keyLimit r with
    | some (path, ']' :: t) =>
      match d.openTable path s.length, endLine t with
      | some d, some rest => some (d, rest)
      | _, _ => none
    | _ => none
  | _ => none

/-- The lines of a document. -/
def readLines : Nat → Draft → List Char → Option Draft
  | 0, _, _ => none
  | fuel + 1, d, s =>
    match blanks s with
    | [] => some d
    | c :: r =>
      if c = '#' || c = '\n' || c = '\r' then
        match readLineEnd (comment (c :: r)) with
        | some rest => readLines fuel d rest
        | none => none
      else
        match (if c = '[' then readHeader d (c :: r) else readEntry d (c :: r)) with
        | some (d, rest) => readLines fuel d rest
        | none => none

/-- Without the mark that some editors put before a text. -/
def withoutMark (s : List Char) : List Char :=
  match s with
  | c :: r => if c = '\uFEFF' then r else s
  | [] => []

/-- The table that a text is the document of. -/
def read (s : String) : Option Table :=
  (readLines (s.length + 1) .start (withoutMark s.toList)).bind Draft.close

/-! ## Places -/

/-- A place in a document, lines and columns counting from 1. -/
structure Position where
  line : Nat
  column : Nat
  deriving DecidableEq, Repr

/-- The first place. -/
def Position.first : Position := ⟨1, 1⟩

/-- The place before which the given characters stand. -/
def Position.after (before : List Char) : Position :=
  before.foldl (fun p c => if c = '\n' then ⟨p.line + 1, 1⟩ else ⟨p.line, p.column + 1⟩) .first

/-- The place at which so many characters of a document are left. -/
def Position.ofLeft (s : String) (left : Nat) : Position :=
  .after (s.toList.take (s.length - left))

/-- The number of characters left where a node begins: at the value, at the header, or else at the
key. -/
def Node.left (key : Key) : Node → Nat
  | .value _ left => left
  | .table t => t.left.getD key.left
  | .tables left _ => left

/-- A node as a value. -/
def Node.asValue : Node → Value
  | .value v _ => v
  | .table _ => .table
  | .tables _ _ => .list

end GuideRig.Toml
