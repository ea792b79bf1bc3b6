/-
# GuideRig.Cli.Command -- what the arguments of a program mean

A program takes settings, each given as `--name value` or `--name=value`, and perhaps one argument
without a name. The arguments are read from left to right. The value of a setting is looked at only
when the next one begins or all are read, so an argument that nobody knows is told of before a bad
value in front of it. What a program has no use for is a fault, and so is a value given twice.
-/

import GuideRig.Net.Address
import GuideRig.Number.Power
import GuideRig.Url.Read

namespace GuideRig.Cli

/-! ## Values -/

/-- The value of an argument. -/
inductive Value where
  | address (a : SocketAddress)
  | path (p : String)
  | text (s : String)
  | url (u : Url)
  | count (n : Nat)
  deriving DecidableEq, Repr

/-- What an argument's value is asked to be. -/
inductive Kind where
  | address
  /-- A path that is not empty. -/
  | path
  | text
  | url
  /-- A number below `2^64`. -/
  | count
  deriving DecidableEq, Repr

/-- What is wrong with a value. -/
inductive ValueFault where
  | empty
  | bad (cause : String)
  deriving DecidableEq, Repr

/-- Reads on in a number of decimal digits. -/
def readCount (n : Nat) : List Char → Except String Nat
  | [] => .ok n
  | c :: r =>
    if '0' ≤ c && c ≤ '9' then
      let n := n * 10 + (c.toNat - '0'.toNat)
      if n < twoTo 64 then readCount n r else .error "number too large to fit in target type"
    else .error "invalid digit found in string"

/-- The number that a text writes; a plus sign may stand in front. -/
def count (s : String) : Except String Nat :=
  match s.toList with
  | [] => .error "cannot parse integer from empty string"
  | '+' :: c :: r => readCount 0 (c :: r)
  | s => readCount 0 s

/-- Reads a value. -/
def Kind.read (k : Kind) (s : String) : Except ValueFault Value :=
  match k with
  | address => match SocketAddress.ofText? s with
    | some a => .ok (.address a)
    | none => .error (.bad SocketAddress.invalid)
  | path => if s = "" then .error .empty else .ok (.path s)
  | text => .ok (.text s)
  | url => match Url.ofText s with
    | .ok u => .ok (.url u)
    | .error f => .error (.bad f.message)
  | count => match Cli.count s with
    | .ok n => .ok (.count n)
    | .error cause => .error (.bad cause)

/-! ## Commands -/

/-- A setting of a program. -/
structure Setting where
  name : String
  about : String
  kind : Kind
  /-- The value that holds where none is given. -/
  standard : Option String
  deriving DecidableEq, Repr

/-- The argument without a name. -/
structure Place where
  name : String
  about : String
  kind : Kind
  /-- The setting that is given instead of it: one of the two has to be there, and not both. -/
  instead : String
  deriving DecidableEq, Repr

/-- A program and what it can be told. -/
structure Command where
  program : String
  settings : List Setting
  place : Option Place
  deriving DecidableEq, Repr

/-- Something that takes a value. -/
inductive Slot where
  | setting (s : Setting)
  | place (p : Place)
  deriving DecidableEq, Repr

/-- The name of a setting's value: the setting's name in capitals. -/
def valueName (name : String) : String :=
  String.ofList (name.toList.map fun c => if c = '-' then '_' else c.toUpper)

namespace Slot

/-- The name under which a value is kept. -/
def name : Slot → String
  | setting s => s.name
  | place p => p.name

/-- What the value is asked to be. -/
def kind : Slot → Kind
  | setting s => s.kind
  | place p => p.kind

/-- How messages show the slot. -/
def text : Slot → String
  | setting s => "--" ++ s.name ++ " <" ++ valueName s.name ++ ">"
  | place p => "[" ++ p.name ++ "]"

end Slot

/-! ## What can come of reading -/

/-- Why arguments are refused. -/
inductive Fault where
  | unknown (argument : String)
  /-- A value for something that takes none. -/
  | surplusValue (value flag : String)
  | missingValue (slot : String)
  | badValue (value slot cause : String)
  | repeated (slot : String)
  | conflict (first second : String)
  | missing (slot : String)
  deriving DecidableEq, Repr

/-- The fault in words. -/
def Fault.message : Fault → String
  | unknown a => "unexpected argument '" ++ a ++ "' found"
  | surplusValue v f => "unexpected value '" ++ v ++ "' for '" ++ f ++ "' found; no more were expected"
  | missingValue s => "a value is required for '" ++ s ++ "' but none was supplied"
  | badValue v s c => "invalid value '" ++ v ++ "' for '" ++ s ++ "': " ++ c
  | repeated s => "the argument '" ++ s ++ "' cannot be used multiple times"
  | conflict a b => "the argument '" ++ a ++ "' cannot be used with '" ++ b ++ "'"
  | missing s => "the following required arguments were not provided:\n  " ++ s

/-- Why a program does not begin its work. -/
inductive Stop where
  /-- It is asked what it can be told. -/
  | help
  /-- It is asked which version it is. -/
  | version
  | fault (f : Fault)
  deriving DecidableEq, Repr

/-! ## Reading -/

/-- The values given so far, in order. -/
abbrev Given := List (String × Value)

/-- What has been read of the arguments. -/
structure Reading where
  given : Given
  /-- A slot whose value has not been looked at, or not been given yet. -/
  pending : Option (Slot × Option String)
  /-- Whether nothing that follows is a setting. -/
  plain : Bool
  /-- Whether the argument without a name has been seen. -/
  placed : Bool

namespace Reading

/-- Before the first argument. -/
def start : Reading := ⟨[], none, false, false⟩

/-- Puts a value into a slot. -/
def give (r : Reading) (slot : Slot) (value : String) : Except Stop Reading :=
  if (r.given.lookup slot.name).isSome then .error (.fault (.repeated slot.text))
  else match slot.kind.read value with
    | .ok v => .ok { r with given := r.given ++ [(slot.name, v)] }
    | .error .empty => .error (.fault (.missingValue slot.text))
    | .error (.bad cause) => .error (.fault (.badValue value slot.text cause))

/-- Looks at the value that has not been looked at. -/
def settle (r : Reading) : Except Stop Reading :=
  match r.pending with
  | none => .ok r
  | some (slot, none) => .error (.fault (.missingValue slot.text))
  | some (slot, some value) => { r with pending := none }.give slot value

/-- Stops once the value that has not been looked at has turned out good. -/
def stopWith (r : Reading) (stop : Stop) : Except Stop Reading :=
  match r.settle with
  | .ok _ => .error stop
  | .error e => .error e

/-- An argument without a name. -/
def readPlain (c : Command) (r : Reading) (arg : String) : Except Stop Reading :=
  match c.place, r.placed with
  | some p, false =>
    match r.settle with
    | .ok r => .ok { r with pending := some (.place p, some arg), placed := true }
    | .error e => .error e
  | _, _ => .error (.fault (.unknown arg))

/-- An argument that begins with two dashes: a name, and perhaps a value after an equals sign. -/
def readLong (c : Command) (r : Reading) (name : String) (value : Option String) :
    Except Stop Reading :=
  match c.settings.find? fun s => s.name == name with
  | some s =>
    match r.settle with
    | .error e => .error e
    | .ok r =>
      match value with
      | some v => r.give (.setting s) v
      | none => .ok { r with pending := some (.setting s, none) }
  | none =>
    if name = "help" || name = "version" then
      match value with
      | some v => .error (.fault (.surplusValue v ("--" ++ name)))
      | none => r.stopWith (if name = "help" then .help else .version)
    else .error (.fault (.unknown ("--" ++ name)))

/-- An argument that begins with one dash. -/
def readShort (r : Reading) (letter : Char) : Except Stop Reading :=
  if letter = 'h' then r.stopWith .help
  else if letter = 'V' then r.stopWith .version
  else .error (.fault (.unknown (String.ofList ['-', letter])))

/-- A value for the setting that waits for one, or else an argument without a name. -/
def readValue (c : Command) (r : Reading) (arg : String) : Except Stop Reading :=
  match r.pending with
  | some (slot, none) => .ok { r with pending := some (slot, some arg) }
  | _ => readPlain c r arg

/-- The name before an equals sign and the value after it. -/
def cutAtEquals (s : List Char) : String × Option String :=
  (String.ofList (s.takeWhile (· != '=')),
    match s.dropWhile (· != '=') with
    | [] => none
    | _ :: v => some (String.ofList v))

/-- One argument. -/
def step (c : Command) (r : Reading) (arg : String) : Except Stop Reading :=
  if r.plain then readPlain c r arg
  else match arg.toList with
    | ['-', '-'] => .ok { r with plain := true }
    | '-' :: '-' :: s => readLong c r (cutAtEquals s).1 (cutAtEquals s).2
    | '-' :: letter :: _ => readShort r letter
    | _ => readValue c r arg

/-- All arguments. -/
def steps (c : Command) (r : Reading) : List String → Except Stop Reading
  | [] => .ok r
  | arg :: rest =>
    match step c r arg with
    | .ok r => steps c r rest
    | .error e => .error e

/-- What is wrong with the values taken together: the argument without a name and the setting given
instead of it. -/
def together (c : Command) (given : Given) : Option Fault :=
  match c.place with
  | none => none
  | some p =>
    let setting := (c.settings.find? fun s => s.name == p.instead).map Slot.setting
    let settingText := (setting.map Slot.text).getD ""
    match given.lookup p.name, given.lookup p.instead with
    | some _, some _ =>
      if (given.findIdx fun e => e.1 == p.name) < (given.findIdx fun e => e.1 == p.instead) then
        some (.conflict (Slot.place p).text settingText)
      else some (.conflict settingText (Slot.place p).text)
    | none, none => some (.missing ("<" ++ p.name ++ ">"))
    | _, _ => none

/-- The end of the arguments. -/
def finish (c : Command) (r : Reading) : Except Stop Given :=
  match r.settle with
  | .error e => .error e
  | .ok r =>
    match together c r.given with
    | some f => .error (.fault f)
    | none => .ok r.given

end Reading

/-- The values that arguments give, or why a program does not begin its work. -/
def Command.read (c : Command) (args : List String) : Except Stop Given :=
  match Reading.start.steps c args with
  | .ok r => r.finish c
  | .error e => .error e

/-! ## Help -/

/-- Spaces. -/
def spaces (n : Nat) : String := String.ofList (List.replicate n ' ')

/-- A text filled up with spaces. -/
def padded (s : String) (width : Nat) : String := s ++ spaces (width - s.length)

/-- An entry of the help: what can be told, and what it means. -/
abbrev Entry := String × String

/-- The width of the screen that help is set for. -/
def screen : Nat := 100

/-- Entries in two columns, or on two lines each if some explanation would not fit beside a wide first
column. -/
def setEntries (entries : List Entry) : List String :=
  let width := (entries.map fun e => e.1.length).foldl max 0
  let taken := width + 8
  let isStacked := screen * 2 < taken * 5 && entries.any fun e => screen - taken < e.2.length
  if isStacked then entries.flatMap fun e => ["  " ++ e.1, spaces 10 ++ e.2]
  else entries.map fun e => "  " ++ padded e.1 width ++ "  " ++ e.2

/-- The entry of a setting. -/
def Setting.entry (s : Setting) : Entry :=
  ("    " ++ (Slot.setting s).text,
    s.about ++ match s.standard with
      | some v => " [default: " ++ v ++ "]"
      | none => "")

/-- The entries that every program has. -/
def commonEntries : List Entry := [("-h, --help", "Print help"), ("-V, --version", "Print version")]

/-- What all the programs are for. -/
def purpose : String := "Fixture servers and a telemetry load bot for local development"

/-- The name and number of the version. -/
def versionText : String := "wagdev 0.1.0"

/-- The help of a program. -/
def Command.help (c : Command) : List String :=
  [purpose, "",
    "Usage: " ++ c.program ++ " [OPTIONS]" ++ (match c.place with
      | some p => " [" ++ p.name ++ "]"
      | none => ""), ""] ++
  (match c.place with
    | some p => ["Arguments:"] ++ setEntries [((Slot.place p).text, p.about)] ++ [""]
    | none => []) ++
  ["Options:"] ++ setEntries (c.settings.map Setting.entry ++ commonEntries)

end GuideRig.Cli
