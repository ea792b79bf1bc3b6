/-
# GuideRig.Toml.Text -- quoted texts

A text stands between double quotes, where a backslash begins an escape, or between single quotes,
where every character stands for itself. Three quotes instead of one allow line ends inside; the
first line end then does not count, and up to two quotes may stand before the closing ones. Each
reader takes what follows the opening quotes and gives the text and what follows the closing ones.
`quote` is the plain way of writing a text.
-/

import GuideRig.Text.Ascii

namespace GuideRig.Toml

/-- A character that may stand in a comment. -/
def inComment (c : Char) : Bool := c == '\t' || (0x20 ≤ c.toNat && c.toNat != 0x7F)

/-- The value of a hexadecimal digit. -/
def hexDigit? (c : Char) : Option Nat :=
  if c.toNat < 0x80 then Ascii.hexValue? (Ascii.byte c) else none

/-- The character of a code point that is one. -/
def charOf? (n : Nat) : Option Char :=
  if n < 0xD800 || (0xDFFF < n && n < 0x110000) then some (Char.ofNat n) else none

namespace Text

/-! ## Double quotes -/

/-- A character that stands for itself between double quotes. -/
def isPlain (c : Char) : Bool := inComment c && c != '"' && c != '\\'

/-- What the letter of a short escape stands for. -/
def shortEscape? (c : Char) : Option Char :=
  if c = 'b' then some '\x08'
  else if c = 't' then some '\t'
  else if c = 'n' then some '\n'
  else if c = 'f' then some '\x0c'
  else if c = 'r' then some '\r'
  else if c = '"' then some '"'
  else if c = '\\' then some '\\'
  else none

/-- Where the reader stands in an escape. -/
inductive Escape where
  | none
  /-- After the backslash. -/
  | opened
  /-- In the digits of a code point: how many are due, and their value so far. -/
  | digits (due : Nat) (value : Nat)
  deriving DecidableEq, Repr

/-- A text between double quotes. What has been read is kept in reverse. -/
def readBasic (read : List Char) : Escape → List Char → Option (String × List Char)
  | _, [] => .none
  | .none, c :: r =>
    if c = '"' then some (String.ofList read.reverse, r)
    else if c = '\\' then readBasic read .opened r
    else if isPlain c then readBasic (c :: read) .none r
    else .none
  | .opened, c :: r =>
    if c = 'u' then readBasic read (.digits 4 0) r
    else if c = 'U' then readBasic read (.digits 8 0) r
    else match shortEscape? c with
      | some e => readBasic (e :: read) .none r
      | .none => .none
  | .digits due value, c :: r =>
    match hexDigit? c with
    | .none => .none
    | some d =>
      let value := value * 16 + d
      if 1 < due then readBasic read (.digits (due - 1) value) r
      else match charOf? value with
        | some e => readBasic (e :: read) .none r
        | .none => .none

/-! ## Single quotes -/

/-- A character that stands for itself between single quotes. -/
def isLiteral (c : Char) : Bool := inComment c && c != '\''

/-- A text between single quotes. -/
def readLiteral (s : List Char) : Option (String × List Char) :=
  match s.dropWhile isLiteral with
  | c :: r => if c = '\'' then some (String.ofList (s.takeWhile isLiteral), r) else none
  | [] => none

/-! ## Three quotes -/

/-- Without the line end that directly follows the opening quotes. -/
def dropFirstLineEnd : List Char → List Char
  | '\n' :: r => r
  | '\r' :: '\n' :: r => r
  | s => s

/-- What three closing quotes end: up to two quotes more belong to the text. -/
def closeLines (quote : Char) (read : List Char) : List Char → String × List Char
  | a :: b :: r =>
    if a = quote then
      if b = quote then (String.ofList (quote :: quote :: read).reverse, r)
      else (String.ofList (quote :: read).reverse, b :: r)
    else (String.ofList read.reverse, a :: b :: r)
  | [a] =>
    if a = quote then (String.ofList (quote :: read).reverse, [])
    else (String.ofList read.reverse, [a])
  | [] => (String.ofList read.reverse, [])

/-- Where the reader stands in a text with line ends. -/
inductive LinesPhase where
  /-- After a number of quotes, fewer than three. -/
  | plain (quotes : Nat)
  /-- In the first half of a line end. -/
  | half
  | escape (phase : Escape)
  /-- After a backslash and blanks, with a line end due. -/
  | folding
  /-- In the first half of a line end that is left out. -/
  | foldingHalf
  /-- In blanks and line ends that are left out. -/
  | folded
  deriving DecidableEq, Repr

/-- A character between three quotes, where no escape has begun. A backslash begins one if `escapes`
says so. -/
def plainStep (quote : Char) (escapes : Bool) (quotes : Nat) (read : List Char) (c : Char) :
    Option (List Char × LinesPhase) :=
  let read := List.replicate quotes quote ++ read
  if c = '\n' then some ('\n' :: read, .plain 0)
  else if c = '\r' then some (read, .half)
  else if c = '\\' && escapes then some (read, .escape .opened)
  else if inComment c then some (c :: read, .plain 0)
  else none

/-- A text between three quotes. -/
def readLines (quote : Char) (escapes : Bool) (read : List Char) :
    LinesPhase → List Char → Option (String × List Char)
  | _, [] => none
  | .plain quotes, c :: r =>
    if c = quote then
      if quotes = 2 then some (closeLines quote read r)
      else readLines quote escapes read (.plain (quotes + 1)) r
    else match plainStep quote escapes quotes read c with
      | some (read, phase) => readLines quote escapes read phase r
      | none => none
  | .half, c :: r => if c = '\n' then readLines quote escapes ('\n' :: read) (.plain 0) r else none
  | .escape .none, _ :: _ => none
  | .escape .opened, c :: r =>
    if c = 'u' then readLines quote escapes read (.escape (.digits 4 0)) r
    else if c = 'U' then readLines quote escapes read (.escape (.digits 8 0)) r
    else if c = ' ' || c = '\t' then readLines quote escapes read .folding r
    else if c = '\n' then readLines quote escapes read .folded r
    else if c = '\r' then readLines quote escapes read .foldingHalf r
    else match shortEscape? c with
      | some e => readLines quote escapes (e :: read) (.plain 0) r
      | none => none
  | .escape (.digits due value), c :: r =>
    match hexDigit? c with
    | none => none
    | some d =>
      let value := value * 16 + d
      if 1 < due then readLines quote escapes read (.escape (.digits (due - 1) value)) r
      else match charOf? value with
        | some e => readLines quote escapes (e :: read) (.plain 0) r
        | none => none
  | .folding, c :: r =>
    if c = ' ' || c = '\t' then readLines quote escapes read .folding r
    else if c = '\n' then readLines quote escapes read .folded r
    else if c = '\r' then readLines quote escapes read .foldingHalf r
    else none
  | .foldingHalf, c :: r => if c = '\n' then readLines quote escapes read .folded r else none
  | .folded, c :: r =>
    if c = ' ' || c = '\t' || c = '\n' then readLines quote escapes read .folded r
    else if c = '\r' then readLines quote escapes read .foldingHalf r
    else if c = quote then readLines quote escapes read (.plain 1) r
    else match plainStep quote escapes 0 read c with
      | some (read, phase) => readLines quote escapes read phase r
      | none => none

/-! ## Any quotes -/

/-- A text, from its opening quote on; line ends are allowed only where `lines` says so. -/
def readQuoted (lines : Bool) : List Char → Option (String × List Char)
  | '"' :: '"' :: '"' :: r =>
    if lines then readLines '"' true [] (.plain 0) (dropFirstLineEnd r) else some ("", '"' :: r)
  | '"' :: r => readBasic [] .none r
  | '\'' :: '\'' :: '\'' :: r =>
    if lines then readLines '\'' false [] (.plain 0) (dropFirstLineEnd r) else some ("", '\'' :: r)
  | '\'' :: r => readLiteral r
  | _ => none

/-! ## Writing -/

/-- A character between double quotes: a quote, a backslash and control characters are escaped. -/
def escapeChar (c : Char) : List Char :=
  if c = '"' then ['\\', '"']
  else if c = '\\' then ['\\', '\\']
  else if c.toNat < 0x20 || c.toNat = 0x7F then
    '\\' :: 'u' :: '0' :: '0' ::
      [Char.ofNat (Ascii.upperHex (c.toNat / 16)).toNat, Char.ofNat (Ascii.upperHex (c.toNat % 16)).toNat]
  else [c]

/-- A text between double quotes. -/
def quote (s : String) : List Char := '"' :: s.toList.flatMap escapeChar ++ ['"']

end Text

end GuideRig.Toml
