/-
# GuideRig.Toml.Table -- tables and what may be put into them

A document is a table: entries in the order in which they were made, each under a key. A table
inside it is made in one of three ways, and the way decides how it may be added to later: one with
a header of its own is closed, one that a header only passes through may still get its header, and
one made by a dotted key may be added to by further dotted keys. Lists of tables are added to at
their end. Of a value only its kind and, for texts, numbers and flags, its content are kept.
-/

import GuideRig.Number.Shortest

namespace GuideRig.Toml

/-- A number with a fraction. -/
inductive Decimal where
  | finite (negative : Bool) (value : Binary64)
  | infinite (negative : Bool)
  | notANumber
  deriving DecidableEq, Repr

/-- A value. -/
inductive Value where
  | text (value : String)
  | whole (value : Int)
  | decimal (value : Decimal)
  | flag (value : Bool)
  | list
  | table
  /-- A date, a time, or both. -/
  | moment
  deriving DecidableEq, Repr

/-- A key, and how many characters of the document were left where it began. -/
structure Key where
  name : String
  left : Nat
  deriving DecidableEq, Repr

/-- How a table was made. -/
inductive TableKind where
  /-- By a header, or as the document itself. -/
  | header
  /-- On the way to a table with a header. -/
  | passed
  /-- By a dotted key. -/
  | dotted
  deriving DecidableEq, Repr

mutual

/-- What stands under a key. Places are numbers of characters that were left. -/
inductive Node where
  | value (value : Value) (left : Nat)
  | table (table : Table)
  /-- A list of tables, by its first place and its last table. -/
  | tables (left : Nat) (last : Table)

/-- A table; its place is that of its header, if it has one. -/
inductive Table where
  | make (kind : TableKind) (left : Option Nat) (entries : List (Key × Node))

end

namespace Table

/-- How the table was made. -/
def kind : Table → TableKind
  | make k _ _ => k

/-- The place of the table's header. -/
def left : Table → Option Nat
  | make _ l _ => l

/-- The entries in order. -/
def entries : Table → List (Key × Node)
  | make _ _ es => es

/-- A table with no entries. -/
def empty (kind : TableKind) : Table := make kind none []

/-- What stands under a name. -/
def get? (t : Table) (name : String) : Option Node :=
  (t.entries.find? fun e => e.1.name == name).map (·.2)

/-- The table with one more entry at its end. -/
def add (t : Table) (key : Key) (n : Node) : Table :=
  make t.kind t.left (t.entries ++ [(key, n)])

/-- The table with the node of a name replaced. -/
def set (t : Table) (name : String) (n : Node) : Table :=
  make t.kind t.left (t.entries.map fun e => if e.1.name == name then (e.1, n) else e)

/-- The table without the entry of a name. -/
def erase (t : Table) (name : String) : Table :=
  make t.kind t.left (t.entries.filter fun e => e.1.name != name)

/-- The table as one with a header at a place. -/
def withHeader (t : Table) (left : Nat) : Table := make .header (some left) t.entries

/-- The table that a path leads to, if there is one. -/
def at? : List Key → Table → Option Table
  | [], t => some t
  | k :: path, t =>
    match t.get? k.name with
    | some (.table sub) => at? path sub
    | some (.tables _ last) => at? path last
    | _ => none

/-- Changes the table that a path leads to, making tables of the given kind where there are none. A
dotted path does not lead into a table with a header. -/
def update (kind : TableKind) (change : Table → Option Table) : List Key → Table → Option Table
  | [], t => change t
  | k :: path, t =>
    match t.get? k.name with
    | none => (update kind change path (empty kind)).map fun sub => t.add k (.table sub)
    | some (.value _ _) => none
    | some (.tables left last) =>
      (update kind change path last).map fun sub => t.set k.name (.tables left sub)
    | some (.table sub) =>
      if kind = .dotted && sub.kind = .header then none
      else (update kind change path sub).map fun sub => t.set k.name (.table sub)

/-- Puts a value under a path. A name is given once, and a dotted key does not end in a table that
was made otherwise. -/
def put (path : List Key) (key : Key) (n : Node) (t : Table) : Option Table :=
  update .dotted (fun sub =>
    if (sub.kind == .dotted) == path.isEmpty then none
    else if (sub.get? key.name).isSome then none
    else some (sub.add key n)) path t

end Table

/-! ## Documents under construction -/

/-- The document's table, and the table to which entries are being added. -/
structure Draft where
  root : Table
  /-- The header of the current table; none before the first header. -/
  header : List Key
  /-- Whether the current table is one of a list. -/
  inList : Bool
  current : Table

namespace Draft

/-- Before the first line. -/
def start : Draft := ⟨.empty .header, [], false, .empty .header⟩

/-- The document's table with the current table in its place. -/
def close (d : Draft) : Option Table :=
  match d.header.getLast? with
  | none => some d.current
  | some key =>
    d.root.update .passed (fun parent =>
      match parent.get? key.name with
      | none => some (parent.add key
          (if d.inList then .tables (d.current.left.getD 0) d.current else .table d.current))
      | some (.tables left _) =>
        if d.inList then some (parent.set key.name (.tables left d.current)) else none
      | some _ => none) d.header.dropLast

/-- Adds an entry to the current table. -/
def put (d : Draft) (path : List Key) (key : Key) (n : Node) : Option Draft :=
  (d.current.put path key n).map fun t => { d with current := t }

/-- Begins a table of a list. -/
def openListed (d : Draft) (header : List Key) (left : Nat) : Option Draft :=
  d.close.map fun root => ⟨root, header, true, (Table.empty .header).withHeader left⟩

/-- Begins the table of a header. One that was only passed through is taken out of its place with its
entries. -/
def openTable (d : Draft) (header : List Key) (left : Nat) : Option Draft :=
  match d.close, header.getLast? with
  | some root, some key =>
    match (root.at? header.dropLast).bind (·.get? key.name) with
    | none => some ⟨root, header, false, (Table.empty .header).withHeader left⟩
    | some (.table t) =>
      if t.kind = .passed then
        (root.update .passed (fun parent => some (parent.erase key.name)) header.dropLast).map
          fun root => ⟨root, header, false, t.withHeader left⟩
      else none
    | some _ => none
  | _, _ => none

end Draft

end GuideRig.Toml
