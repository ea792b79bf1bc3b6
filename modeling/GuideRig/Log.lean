/-
# GuideRig.Log -- log lines and which of them are shown

A line has a level, the name of the part that wrote it and a text. A filter is a list of rules, each
of them for all parts or for those whose name begins in a given way; of the rules that apply to a
line the one with the longest name decides, and a line to which none applies is not shown.
-/

import GuideRig.Text.Ascii

namespace GuideRig

/-- How grave a line is. -/
inductive Level where
  | error
  | warn
  | info
  | debug
  | trace
  deriving DecidableEq, Repr

namespace Level

/-- The place of a level among the others, the gravest first. -/
def rank : Level → Nat
  | error => 1
  | warn => 2
  | info => 3
  | debug => 4
  | trace => 5

/-- The level as it is shown. -/
def text : Level → String
  | error => "ERROR"
  | warn => "WARN"
  | info => "INFO"
  | debug => "DEBUG"
  | trace => "TRACE"

end Level

/-- The part that writes a line. -/
inductive LogSource where
  /-- The bot's own program. -/
  | botProgram
  | bot
  | server
  | pages
  | document
  deriving DecidableEq, Repr

/-- The name by which a filter knows the part. -/
def LogSource.name : LogSource → String
  | botProgram => "telebot"
  | bot => "wagdev::telemetry::bot"
  | server => "wagdev::server"
  | pages => "wagdev::service::fixtures"
  | document => "wagdev::service::files"

/-- A line of the log. -/
structure LogLine where
  level : Level
  source : LogSource
  message : String
  deriving DecidableEq, Repr

/-- The line as it is shown. -/
def LogLine.text (l : LogLine) : String := l.level.text ++ " " ++ l.message

/-! ## Filters -/

/-- A rule: up to which rank lines are shown whose part has a name that begins with the given text. -/
structure LogRule where
  name : Bytes
  rank : Nat
  deriving DecidableEq, Repr

/-- Which lines are shown. -/
structure LogFilter where
  rules : List LogRule
  deriving DecidableEq, Repr

namespace LogFilter

open Ascii

/-- What is shown where nothing else is asked for. -/
def standard : LogFilter := ⟨[⟨[], Level.info.rank⟩]⟩

/-- The rank that a level's name or number stands for. -/
def rank? (word : Bytes) : Option Nat :=
  match (lowercase word) with
  | [d] => if byte '0' ≤ d && d ≤ byte '5' then some (d - byte '0').toNat else none
  | w =>
    if w = bytes "off" then some 0
    else if w = bytes "error" then some 1
    else if w = bytes "warn" then some 2
    else if w = bytes "info" then some 3
    else if w = bytes "debug" then some 4
    else if w = bytes "trace" then some 5
    else none

/-- A byte of a part's name. -/
def inName (b : UInt8) : Bool := isAlphanumeric b || (bytes "_:-.").contains b

/-- One rule: a level for all parts, the name of a part, or a name, an equals sign and a level. -/
def rule? (s : Bytes) : Option LogRule :=
  match rank? s with
  | some r => some ⟨[], r⟩
  | none =>
    let name := s.takeWhile inName
    match s.dropWhile inName with
    | [] => some ⟨name, Level.trace.rank⟩
    | c :: r =>
      if c = byte '=' && !name.isEmpty then
        if r.isEmpty then some ⟨name, Level.trace.rank⟩ else (rank? r).map fun rank => ⟨name, rank⟩
      else none

/-- The pieces between commas. -/
def pieces : Bytes → List Bytes
  | [] => [[]]
  | b :: r =>
    if b = byte ',' then [] :: pieces r
    else match pieces r with
      | [] => [[b]]
      | p :: ps => (b :: p) :: ps

/-- The filter that a text asks for. One with no rules shows errors alone. -/
def ofBytes? (s : Bytes) : Option LogFilter :=
  match ((pieces s).filter (!·.isEmpty)).mapM rule? with
  | none => none
  | some [] => some ⟨[⟨[], Level.error.rank⟩]⟩
  | some rules => some ⟨rules⟩

/-- The filter that a program is given, if it is given one that can be read. -/
def ofSetting (setting : Option String) : LogFilter :=
  ((setting.bind fun s => ofBytes? (Utf8.encode s))).getD standard

/-- Of two rules that apply, the one that decides: that with the longer name, or the later one. -/
def decisive (chosen : Option LogRule) (r : LogRule) : Option LogRule :=
  match chosen with
  | none => some r
  | some c => if c.name.length ≤ r.name.length then some r else some c

/-- Whether a line is shown. -/
def shows (f : LogFilter) (l : LogLine) : Bool :=
  let applying := f.rules.filter fun r => r.name.isPrefixOf (bytes l.source.name)
  match applying.foldl decisive none with
  | none => false
  | some r => l.level.rank ≤ r.rank

end LogFilter

end GuideRig
