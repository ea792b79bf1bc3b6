/-
# GuideRig.Guide.Page -- what a server answers a request with

A server either has the pages of the guide in a folder, or one document for every request. `path?`
is the one file that a request leads to, if any, and `render` the body of the answer: it looks at
the files only through the outcome of reading that path.
-/

import GuideRig.FileTree
import GuideRig.Guide.Lexicon

namespace GuideRig

/-- What a server has to show. -/
inductive Content where
  /-- The pages of the guide, in a folder. -/
  | pages (folder : String)
  /-- One document. -/
  | document (path : String)
  deriving DecidableEq, Repr

/-- A file that could not be read. -/
structure ReadFault where
  path : String
  cause : IoError
  deriving DecidableEq, Repr

namespace Content

/-- What stands after every page, and alone where there is no page. -/
def fallback : Bytes := Ascii.bytes "other resource"

/-- A file in a folder. A name that starts at the root stands for itself. -/
def inFolder (folder file : String) : String :=
  if folder = "" || file.toList.head? = some '/' then file
  else if folder.toList.getLast? = some '/' then folder ++ file
  else folder ++ "/" ++ file

/-- The page file that a query leads to. -/
def pageFile? (query : Option Bytes) : Option String :=
  (query.bind Lexicon.word?).bind Lexicon.file?

/-- The path of the file that a request with the given query leads to. -/
def path? (content : Content) (query : Option Bytes) : Option String :=
  match content with
  | pages folder => (pageFile? query).map (inFolder folder)
  | document path => some path

/-- The outcome of reading one path. -/
def readFile (files : Files) (path : String) : Except ReadFault Bytes :=
  match files path with
  | .ok b => .ok b
  | .error e => .error ⟨path, e⟩

/-- The body of the answer to a request with the given query. -/
def render (content : Content) (files : Files) (query : Option Bytes) : Except ReadFault Bytes :=
  match content with
  | document path => readFile files path
  | pages folder =>
    match pageFile? query with
    | none => .ok fallback
    | some file =>
      match readFile files (inFolder folder file) with
      | .ok page => .ok (page ++ fallback)
      | .error e => .error e

/-- What the log says about the file that a request leads to. -/
def note (content : Content) (path : String) : String :=
  match content with
  | pages _ => "Send fixture " ++ path
  | document _ => "Send file " ++ path

end Content

end GuideRig
