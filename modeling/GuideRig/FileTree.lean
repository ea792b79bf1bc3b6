/-
# GuideRig.FileTree -- files and folders, and what reading a path gives

A tree is a finite list of entries, each at the component names that lead to it from the root. A
path is followed component by component: an empty component or `.` stays, `..` goes up (and stays
at the root), and each other step needs the place it starts from to be a folder. A path that ends
in a slash, `.` or `..` names a folder. Everything else in this library sees a tree only through
`Files`, that is, through the outcome of reading each path.
-/

import GuideRig.IoError
import GuideRig.Text.Utf8

namespace GuideRig

/-- What reading each path gives. -/
abbrev Files := String → Except IoError Bytes

/-- What stands at a place in a tree. -/
inductive Entry where
  | file (content : Bytes)
  | folder
  deriving DecidableEq, Repr

/-- Entries by the names that lead to them. The root is always a folder. -/
structure FileTree where
  entries : List (List String × Entry)

namespace FileTree

/-- Nothing but the root. -/
def empty : FileTree := ⟨[]⟩

/-- What stands at a place. -/
def at? (t : FileTree) (place : List String) : Option Entry :=
  if place.isEmpty then some .folder else t.entries.lookup place

/-- The components of a path, empty ones included. -/
def components (path : String) : List String :=
  (path.toList.foldr (fun c parts =>
    if c = '/' then [] :: parts
    else match parts with
      | [] => [[c]]
      | p :: ps => (c :: p) :: ps) [[]]).map String.ofList

/-- The names in a path that is given to the tree's own operations. -/
def names (path : String) : List String := (components path).filter (· != "")

/-- All places from the root down to one, the root excluded. -/
def ancestry (place : List String) : List (List String) :=
  (List.range place.length).map fun n => place.take (n + 1)

/-! ## Changing a tree -/

/-- A folder at the place and at every place above it, where nothing stands yet. -/
def makeFolder (t : FileTree) (place : List String) : FileTree :=
  (ancestry place).foldl (fun t p => if (t.at? p).isSome then t else ⟨(p, .folder) :: t.entries⟩) t

/-- The file at the place, and folders above it. -/
def write (t : FileTree) (place : List String) (content : Bytes) : FileTree :=
  let t := t.makeFolder place.dropLast
  ⟨(place, .file content) :: t.entries.filter fun e => e.1 != place⟩

/-- Nothing at the place or below it. -/
def remove (t : FileTree) (place : List String) : FileTree :=
  ⟨t.entries.filter fun e => !place.isPrefixOf e.1⟩

/-! ## Reading -/

/-- The longest name a folder can hold, and the longest path, in bytes. -/
def longestName : Nat := 255

/-- A path of this many bytes is too long. -/
def pathLimit : Nat := 4096

/-- Follows the components of a path from a place. -/
def follow (t : FileTree) (place : List String) : List String → Except IoError (List String)
  | [] => .ok place
  | name :: rest =>
    match t.at? place with
    | none => .error .notFound
    | some (.file _) => .error .notDirectory
    | some .folder =>
      -- also a step that stays needs a folder to stay in
      if name = "" || name = "." then t.follow place rest
      else if name = ".." then t.follow place.dropLast rest
      else if longestName < (Utf8.encode name).length then .error .nameTooLong
      else t.follow (place ++ [name]) rest

/-- What reading a path gives, relative paths being taken from the folder `cwd`. -/
def read (t : FileTree) (cwd : List String) : Files := fun path =>
  if path.toList.contains '\x00' then .error .nulInName
  else if path = "" then .error .notFound
  else if pathLimit ≤ (Utf8.encode path).length then .error .nameTooLong
  else
    let start := if path.toList.head? = some '/' then [] else cwd
    match t.follow start (components path) with
    | .error e => .error e
    | .ok place =>
      match t.at? place with
      | none => .error .notFound
      | some .folder => .error .isDirectory
      | some (.file content) => .ok content

end FileTree

end GuideRig
