/-
# GuideRig.Json.Printer -- data written as JSON

The written form is the compact one: no spaces, entries and items in their order. Inside a string a
quote, a backslash and the control characters below U+0020 are escaped, the five common ones by a
letter and the others by four small hexadecimal digits; every other character stands for itself.
-/

import GuideRig.Json.Shape

namespace GuideRig.Json

open Ascii

/-- A character of a string. -/
def escapeChar (c : Char) : Bytes :=
  if c = '"' then [byte '\\', byte '"']
  else if c = '\\' then [byte '\\', byte '\\']
  else if c = '\x08' then [byte '\\', byte 'b']
  else if c = '\x0c' then [byte '\\', byte 'f']
  else if c = '\n' then [byte '\\', byte 'n']
  else if c = '\r' then [byte '\\', byte 'r']
  else if c = '\t' then [byte '\\', byte 't']
  else if c.toNat < 0x20 then
    [byte '\\', byte 'u', byte '0', byte '0', lowerHex (c.toNat / 16), lowerHex (c.toNat % 16)]
  else Utf8.ofChar c

/-- A text as a string. -/
def quote (s : String) : Bytes := byte '"' :: s.toList.flatMap escapeChar ++ [byte '"']

/-- The parts with a comma between each two. -/
def joined : List Bytes → Bytes
  | [] => []
  | [p] => p
  | p :: ps => p ++ byte ',' :: joined ps

/-- A key and its value. -/
def member (key : String) (value : Bytes) : Bytes := quote key ++ byte ':' :: value

mutual

/-- A datum as JSON. -/
def Datum.write : Datum → Bytes
  | .text s => quote s
  | .flag b => bytes (if b then "true" else "false")
  | .whole v => decimalInt v
  | .list items => byte '[' :: joined (writeItems items) ++ [byte ']']
  | .map entries => byte '\x7b' :: joined (writeEntries entries) ++ [byte '\x7d']

/-- The items of a list, each as JSON. -/
def writeItems : List Datum → List Bytes
  | [] => []
  | d :: ds => d.write :: writeItems ds

/-- The entries of a map, each as JSON. -/
def writeEntries : List (String × Datum) → List Bytes
  | [] => []
  | (key, d) :: es => member key d.write :: writeEntries es

end

end GuideRig.Json
