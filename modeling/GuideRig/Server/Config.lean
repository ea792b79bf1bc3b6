/-
# GuideRig.Server.Config -- what a server is told to do

A server is given an address to listen on, something to show and perhaps a name. It can be described
in a document: `listen` and `name` are looked at in the order of the document, and the first of the
keys `file` and `fixtures` says what there is to show. Other keys do not matter.
-/

import GuideRig.Guide.Page
import GuideRig.Net.Address
import GuideRig.Toml.Document

namespace GuideRig

open Toml

/-- What a server is told to do. -/
structure ServerConfig where
  listen : SocketAddress
  content : Content
  name : Option String
  deriving DecidableEq, Repr

/-- What is wrong with the content of a document. -/
inductive ConfigCause where
  /-- The text of the address is none. -/
  | badAddress
  /-- A value of another kind than asked for. -/
  | wrongType (found : Value) (expected : String)
  /-- A key that has to be there is not. -/
  | missing (key : String)
  /-- Nothing says what there is to show. -/
  | noContent
  deriving DecidableEq, Repr

/-- Why a document describes no server. -/
inductive ConfigFault where
  /-- The text is no document. -/
  | malformed
  /-- The document has another content than asked for. -/
  | mismatch (cause : ConfigCause) (position : Position)
  deriving DecidableEq, Repr

/-! ## Wording -/

/-- A number with a fraction, in words. -/
def decimalText : Decimal → String
  | .finite negative v => (if negative then "-" else "") ++ Ascii.text (v.text .pointed)
  | .infinite negative => if negative then "-inf" else "inf"
  | .notANumber => "NaN"

/-- A value in words. -/
def valueText : Value → String
  | .text s => "string \"" ++ s ++ "\""
  | .whole v => "integer `" ++ Ascii.text (Ascii.decimalInt v) ++ "`"
  | .decimal d => "floating point `" ++ decimalText d ++ "`"
  | .flag b => "boolean `" ++ (if b then "true" else "false") ++ "`"
  | .list => "sequence"
  | .table | .moment => "map"

/-- The cause in words. -/
def ConfigCause.message : ConfigCause → String
  | badAddress => SocketAddress.invalid
  | wrongType found expected => "invalid type: " ++ valueText found ++ ", expected " ++ expected
  | missing key => "missing field `" ++ key ++ "`"
  | noContent => "no variant of enum Action found in flattened data"

/-- The fault in words; of a text that is no document nothing more is said. -/
def ConfigFault.message : ConfigFault → String
  | malformed => "TOML parse error"
  | mismatch cause p =>
    "TOML parse error at line " ++ toString p.line ++ ", column " ++ toString p.column ++ ": " ++
      cause.message

namespace ServerConfig

/-! ## Keys -/

/-- The key of the address. -/
def listenKey : String := "listen"

/-- The key of the name. -/
def nameKey : String := "name"

/-- The key of a single document. -/
def fileKey : String := "file"

/-- The key of a folder of pages. -/
def fixturesKey : String := "fixtures"

/-! ## Reading -/

/-- The address that a value gives. -/
def readListen : Value → Except ConfigCause SocketAddress
  | .text s => match SocketAddress.ofText? s with
    | some a => .ok a
    | none => .error .badAddress
  | v => .error (.wrongType v "socket address")

/-- The name that a value gives. -/
def readName : Value → Except ConfigCause String
  | .text s => .ok s
  | v => .error (.wrongType v "a string")

/-- Address and name of the entries, in their order; a fault comes with the number of characters that
are left where its value begins. -/
def readEntries : List (Key × Node) → Option SocketAddress × Option String →
    Except (ConfigCause × Nat) (Option SocketAddress × Option String)
  | [], got => .ok got
  | (key, node) :: rest, (listen, name) =>
    if key.name = listenKey then
      match readListen node.asValue with
      | .ok a => readEntries rest (some a, name)
      | .error c => .error (c, node.left key)
    else if key.name = nameKey then
      match readName node.asValue with
      | .ok n => readEntries rest (listen, some n)
      | .error c => .error (c, node.left key)
    else readEntries rest (listen, name)

/-- What there is to show, by the first entry that says so. -/
def readContent : List (Key × Node) → Except ConfigCause Content
  | [] => .error .noContent
  | (key, node) :: rest =>
    if key.name = fileKey then
      match node.asValue with
      | .text path => .ok (.document path)
      | v => .error (.wrongType v "path string")
    else if key.name = fixturesKey then
      match node.asValue with
      | .text folder => .ok (.pages folder)
      | v => .error (.wrongType v "path string")
    else readContent rest

/-- The description in a document. Faults that are not about one value are told of its first place. -/
def ofDocument (text : String) : Except ConfigFault ServerConfig :=
  match Toml.read text with
  | none => .error .malformed
  | some t =>
    match readEntries t.entries (none, none) with
    | .error (cause, left) => .error (.mismatch cause (.ofLeft text left))
    | .ok (none, _) => .error (.mismatch (.missing listenKey) .first)
    | .ok (some listen, name) =>
      match readContent t.entries with
      | .error cause => .error (.mismatch cause .first)
      | .ok content => .ok ⟨listen, content, name⟩

/-! ## Names in the log -/

/-- The name under which a server at an address appears in the log. -/
def logName (c : ServerConfig) (address : SocketAddress) : String :=
  match c.name with
  | some n => address.text ++ " (" ++ n ++ ")"
  | none => address.text

/-! ## Standard settings -/

/-- Where a server of guide pages listens unless it is told otherwise. -/
def pagesListen : String := "127.0.0.1:8081"

/-- Where a server of one document listens unless it is told otherwise. -/
def documentListen : String := "127.0.0.1:8082"

/-- Where a server of guide pages finds them unless it is told otherwise. -/
def pagesFolder : String := "testdata/lguide"

end ServerConfig

end GuideRig
