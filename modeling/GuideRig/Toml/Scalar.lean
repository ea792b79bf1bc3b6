/-
# GuideRig.Toml.Scalar -- numbers, flags and moments

Each reader takes a value off the front of a text and gives it with what follows. Whether the value
may end there is for what it stands in to say. Of several readers that would take something the one
that takes more comes first: a moment before a number, a number with a fraction before a whole one.
-/

import GuideRig.Toml.Table

namespace GuideRig.Toml

/-! ## Digits -/

/-- A decimal digit. -/
def isDigit (c : Char) : Bool := '0' ≤ c && c ≤ '9'

/-- The value of a digit in a base, if it is one. -/
def digitIn? (base : Nat) (c : Char) : Option Nat :=
  let v := if isDigit c then c.toNat - '0'.toNat
    else if 'a' ≤ c && c ≤ 'f' then c.toNat - 'a'.toNat + 10
    else if 'A' ≤ c && c ≤ 'F' then c.toNat - 'A'.toNat + 10
    else base
  if v < base then some v else none

/-- Further digits, each perhaps after an underscore. -/
def moreDigits (base : Nat) : List Char → List Nat × List Char
  | '_' :: c :: r =>
    match digitIn? base c with
    | some d => let (ds, rest) := moreDigits base r; (d :: ds, rest)
    | none => ([], '_' :: c :: r)
  | c :: r =>
    match digitIn? base c with
    | some d => let (ds, rest) := moreDigits base r; (d :: ds, rest)
    | none => ([], c :: r)
  | [] => ([], [])

/-- At least one digit. -/
def someDigits (base : Nat) (s : List Char) : Option (List Nat × List Char) :=
  match s with
  | [] => none
  | c :: r => (digitIn? base c).map fun d => let (ds, rest) := moreDigits base r; (d :: ds, rest)

/-- The number that digits write. -/
def numberOf (base : Nat) (ds : List Nat) : Nat := ds.foldl (fun n d => n * base + d) 0

/-- A sign, if there is one, and whether it is a minus. -/
def readSign : List Char → Bool × List Char
  | '-' :: r => (true, r)
  | '+' :: r => (false, r)
  | s => (false, s)

/-- Digits of a decimal number with no zero in front. -/
def decimalDigits (s : List Char) : Option (List Nat × List Char) :=
  match s with
  | '0' :: r => some ([0], r)
  | _ => someDigits 10 s

/-! ## Whole numbers -/

/-- The whole number in a base other than ten. -/
def readBased (base : Nat) (s : List Char) : Option (Value × List Char) :=
  match someDigits base s with
  | some (ds, r) =>
    if numberOf base ds < twoTo 63 then some (.whole (numberOf base ds), r) else none
  | none => none

/-- A whole number. -/
def readWhole (s : List Char) : Option (Value × List Char) :=
  match s with
  | '0' :: 'x' :: r => readBased 16 r
  | '0' :: 'o' :: r => readBased 8 r
  | '0' :: 'b' :: r => readBased 2 r
  | _ =>
    let (negative, t) := readSign s
    match decimalDigits t with
    | some (ds, r) =>
      let v : Int := if negative then -numberOf 10 ds else numberOf 10 ds
      if -(twoTo 63 : Int) ≤ v && v < twoTo 63 then some (.whole v, r) else none
    | none => none

/-! ## Numbers with a fraction -/

/-- Powers of ten past this one are out of the range of doubles either way. -/
def powerLimit : Nat := 400

/-- The double nearest to a decimal, if there is one that is finite. -/
def nearest? (n : Nat) (power : Int) : Option Binary64 :=
  if n = 0 then some ⟨0⟩
  else if 0 ≤ power then
    if powerLimit < power then none
    else
      let v := Binary64.ofNat (n * tenTo power.toNat)
      if v.isInfinite then none else some v
  else if (Ascii.decimal n).length + powerLimit < power.natAbs then some ⟨0⟩
  else
    let v := Binary64.ofRatio n (tenTo power.natAbs)
    if v.isInfinite then none else some v

/-- The digits after a point, if there is one. -/
def readFraction : List Char → Option (List Nat × List Char)
  | '.' :: r => someDigits 10 r
  | _ => none

/-- The exponent, if there is one. -/
def readExponent (s : List Char) : Option (Int × List Char) :=
  match s with
  | c :: r =>
    if c = 'e' || c = 'E' then
      let (negative, r) := readSign r
      (someDigits 10 r).map fun (ds, r) =>
        (if negative then -numberOf 10 ds else numberOf 10 ds, r)
    else none
  | [] => none

/-- A number that is infinite or none. -/
def readSpecial (s : List Char) : Option (Value × List Char) :=
  let (negative, t) := readSign s
  match t with
  | 'i' :: 'n' :: 'f' :: r => some (.decimal (.infinite negative), r)
  | 'n' :: 'a' :: 'n' :: r => some (.decimal .notANumber, r)
  | _ => none

/-- A number with a fraction or an exponent. One that is too large is refused, but one that is too
small is minus infinity. -/
def readDecimal (s : List Char) : Option (Value × List Char) :=
  let (negative, t) := readSign s
  match decimalDigits t with
  | none => none
  | some (whole, r) =>
    let finish (places : List Nat) (power : Int) (r : List Char) : Option (Value × List Char) :=
      match nearest? (numberOf 10 (whole ++ places)) (power - places.length) with
      | some v => some (.decimal (.finite negative v), r)
      | none => if negative then some (.decimal (.infinite true), r) else none
    match readFraction r with
    | some (places, r) =>
      match readExponent r with
      | some (e, r) => finish places e r
      | none => finish places 0 r
    | none =>
      match readExponent r with
      | some (e, r) => finish [] e r
      | none => none

/-! ## Moments -/

/-- A number of exactly so many digits, within bounds. -/
def readFixed (digits low high : Nat) (s : List Char) : Option (Nat × List Char) :=
  let ds := s.take digits
  if ds.length = digits && ds.all isDigit then
    let n := numberOf 10 (ds.filterMap (digitIn? 10))
    if low ≤ n && n ≤ high then some (n, s.drop digits) else none
  else none

/-- One given character. -/
def readChar (c : Char) : List Char → Option (List Char)
  | d :: r => if d = c then some r else none
  | [] => none

/-- How many days a month has. -/
def monthDays (year month : Nat) : Nat :=
  if month = 2 then
    if year % 4 = 0 && (year % 100 != 0 || year % 400 = 0) then 29 else 28
  else if month = 4 || month = 6 || month = 9 || month = 11 then 30
  else 31

/-- A date. -/
def readDate (s : List Char) : Option (List Char) := do
  let (year, s) ← readFixed 4 0 9999 s
  let (month, s) ← readFixed 2 1 12 (← readChar '-' s)
  let (_, s) ← readFixed 2 1 (monthDays year month) (← readChar '-' s)
  some s

/-- A time of day. -/
def readTime (s : List Char) : Option (List Char) := do
  let (_, s) ← readFixed 2 0 23 s
  let (_, s) ← readFixed 2 0 59 (← readChar ':' s)
  let (_, s) ← readFixed 2 0 60 (← readChar ':' s)
  match s with
  | '.' :: r =>
    if (r.takeWhile isDigit).isEmpty then some s else some (r.dropWhile isDigit)
  | _ => some s

/-- A distance from the prime meridian's time, or none. -/
def readZone (s : List Char) : List Char :=
  match s with
  | [] => []
  | c :: r =>
    if c = 'Z' || c = 'z' then r
    else if c = '+' || c = '-' then
      let zone : Option (List Char) := do
        let (_, t) ← readFixed 2 0 23 r
        let (_, t) ← readFixed 2 0 59 (← readChar ':' t)
        some t
      zone.getD s
    else s

/-- A date, a date with a time, or a time. -/
def readMoment (s : List Char) : Option (Value × List Char) :=
  match readDate s with
  | some r =>
    match r with
    | c :: t =>
      if c = 'T' || c = 't' || c = ' ' then
        match readTime t with
        | some t => some (.moment, readZone t)
        | none => some (.moment, r)
      else some (.moment, r)
    | [] => some (.moment, r)
  | none => (readTime s).map fun r => (.moment, r)

/-! ## Any of them -/

/-- A flag. -/
def readFlag : List Char → Option (Value × List Char)
  | 't' :: 'r' :: 'u' :: 'e' :: r => some (.flag true, r)
  | 'f' :: 'a' :: 'l' :: 's' :: 'e' :: r => some (.flag false, r)
  | _ => none

/-- A value that is neither text nor list nor table. -/
def readScalar (s : List Char) : Option (Value × List Char) :=
  (readMoment s).or ((readSpecial s).or ((readDecimal s).or ((readWhole s).or (readFlag s))))

end GuideRig.Toml
