/-
# GuideRig.Error -- everything that can go wrong

One constructor per kind of failure, each holding the cause that its own module defines. `message` is
what a user is told; `report` is the long form with which a program ends.
-/

import GuideRig.Conf
import GuideRig.Http.Message
import GuideRig.Server.Config
import GuideRig.Telemetry.Batch
import GuideRig.Url.Basic

namespace GuideRig

/-- A failure of a server or of a bot. -/
inductive Error where
  /-- A socket or a connection. -/
  | io (cause : IoError)
  /-- A file. -/
  | read (fault : ReadFault)
  /-- A response. -/
  | response (fault : ResponseFault)
  /-- A request. -/
  | request (fault : RequestFault)
  /-- A URL, or a reference relative to one. -/
  | url (fault : UrlFault)
  /-- A URL of a scheme that cannot be reached. -/
  | unsupportedUrl (url : String)
  /-- A response that does not report success. -/
  | status (method : Method) (url : String) (status : Nat)
  /-- A JSON document. -/
  | json (report : Json.Report)
  /-- The description of a server. -/
  | config (fault : ConfigFault)
  /-- The settings of a bot. -/
  | setup (fault : SetupFault)

namespace Error

/-- The failure in words. -/
def message : Error → String
  | io e => e.message
  | read f => "failed to read " ++ f.path ++ ": " ++ f.cause.message
  | response f => f.message
  | request f => "failed to build request: " ++ f.message
  | url f => "invalid URL: " ++ f.message
  | unsupportedUrl u =>
    "unsupported URL " ++ u ++ ", only plain http:// targets can be reached"
  | status m u s => m.name ++ " " ++ u ++ " returned " ++ Status.text s
  | json r => "invalid JSON: " ++ r.message
  | config f => "invalid TOML: " ++ f.message
  | setup f => "configuration error: " ++ f.message

/-! ## Reports -/

/-- A number in hexadecimal digits. -/
def hexText (n : Nat) : String := Ascii.text (Ipv6.hex n)

/-- A character inside quotes: the ones that would not be seen as they are stand as escapes. -/
def quotedChar (c : Char) : String :=
  if c = '"' then "\\\""
  else if c = '\\' then "\\\\"
  else if c = '\n' then "\\n"
  else if c = '\r' then "\\r"
  else if c = '\t' then "\\t"
  else if c = '\x00' then "\\0"
  else if c.toNat < 0x20 || (0x7F ≤ c.toNat && c.toNat < 0xA0) then
    "\\u\x7b" ++ hexText c.toNat ++ "\x7d"
  else String.ofList [c]

/-- A text in quotes. -/
def quoted (s : String) : String :=
  "\"" ++ String.join (s.toList.map quotedChar) ++ "\""

/-- The cause of a failed operation, in its long form. -/
def ioReport (e : IoError) : String :=
  match e, e.system? with
  | _, some (code, kind) =>
    "Os \x7b code: " ++ toString code ++ ", kind: " ++ kind ++ ", message: " ++ quoted e.text ++ " \x7d"
  | .nulInName, none => "Error \x7b kind: InvalidInput, message: " ++ quoted e.text ++ " \x7d"
  | _, none => "Error \x7b kind: InvalidData, message: " ++ quoted e.text ++ " \x7d"

/-- The failure in its long form. -/
def report : Error → String
  | io e => "Io(" ++ ioReport e ++ ")"
  | read f =>
    "Read \x7b path: " ++ quoted f.path ++ ", source: " ++ ioReport f.cause ++ " \x7d"
  | response f => "Http(hyper::Error(" ++ f.name ++ "))"
  | request f => "Request(http::Error(" ++ f.name ++ "))"
  | url f => "Url(" ++ f.name ++ ")"
  | unsupportedUrl u => "UnsupportedUrl(" ++ quoted u ++ ")"
  | status m u s =>
    "Status \x7b method: " ++ m.name ++ ", url: " ++ quoted u ++ ", status: " ++ toString s ++ " \x7d"
  | json r =>
    "Json(Error(" ++ quoted r.cause.message ++ ", line: " ++ toString r.position.line ++
      ", column: " ++ toString r.position.column ++ "))"
  | config f => "Toml(" ++ f.message ++ ")"
  | setup f => "Config(" ++ quoted f.message ++ ")"

end Error

/-! ## Files that are read whole -/

/-- The bytes of a file. -/
def Files.bytes (files : Files) (path : String) : Except Error Bytes :=
  match Content.readFile files path with
  | .ok b => .ok b
  | .error f => .error (.read f)

/-- The text of a file. -/
def Files.text (files : Files) (path : String) : Except Error String :=
  match files.bytes path with
  | .error e => .error e
  | .ok b => match Utf8.decode? b with
    | some s => .ok s
    | none => .error (.read ⟨path, .notText⟩)

/-- The configuration of a bot that a file holds. -/
def Conf.load (files : Files) (path : String) : Except Error Conf :=
  match files.bytes path with
  | .error e => .error e
  | .ok doc => match Conf.read doc with
    | .ok c => .ok c
    | .error r => .error (.json r)

/-- The description of a server that a file holds. -/
def ServerConfig.load (files : Files) (path : String) : Except Error ServerConfig :=
  match files.text path with
  | .error e => .error e
  | .ok text => match ServerConfig.ofDocument text with
    | .ok c => .ok c
    | .error f => .error (.config f)

end GuideRig
