/-
# GuideRig.Proofs.Net.Address -- an address is read back from its text

Every socket address is read back from the text that it is shown as (`SocketAddress.ofText?_text`),
wherever groups of zeros are left out of it and whether or not two of its groups are shown as four bytes.
Groups are read over whatever may follow them, as long as no further group begins there
(`Ipv6.EndsGroups`). What is left out is a run of zeros that stands in the groups (`Ipv6.Run.StandsIn`),
and as there are eight groups, the reader knows how long it was.
-/

import GuideRig.Proofs.Net.Number

namespace GuideRig

open Ascii

variable {rest : Bytes}

/-! ## Four bytes -/

theorem readByte_self (b : UInt8) (s : Bytes) : readByte b (b :: s) = some s := if_pos rfl

theorem readByte_of_ne {b c : UInt8} (other : c ≠ b) (s : Bytes) : readByte b (c :: s) = none :=
  if_neg other

theorem readByte_eq_some {b : UInt8} {s r : Bytes} (h : readByte b s = some r) : s = b :: r := by
  cases s with
  | nil => cases h
  | cons c s =>
    rw [readByte] at h
    split at h
    · rename_i same
      rw [same, Option.some.inj h]
    · cases h

namespace Ipv4

theorem readNumber_octet (a : UInt8) (ends : EndsNumber rest) :
    readNumber 10 (some 3) 255 false (decimal a.toNat ++ rest) = some (a.toNat, rest) := by
  have size := a.toNat_lt
  apply writesDigits_decimal.readNumber_write (by omega) _ ends
  rintro m ⟨⟩
  exact writesDigits_decimal.length_le (by omega)

/-- Four bytes are read back over what may follow them. -/
theorem read_bytes (ip : Ipv4) (ends : EndsNumber rest) : read (ip.bytes ++ rest) = some (ip, rest) := by
  have point (s : Bytes) : EndsNumber (byte '.' :: s) := endsNumber_cons rfl s
  simp only [read, bytes, List.append_assoc, List.cons_append, readNumber_octet _ (point _),
    readNumber_octet _ ends, readByte_self, Option.bind_eq_bind, Option.bind_some, Nat.toUInt8_eq,
    UInt8.ofNat_toNat]

theorem read_of_ends {s : Bytes} (ends : EndsNumber s) : read s = none := by
  rw [read, readNumber_of_ends ends]
  rfl

/-- Four bytes are not read where another sign than a point follows the first digits. -/
theorem read_of_no_point {s : Bytes} (other : (s.dropWhile (isDigitIn 10)).head? ≠ some (byte '.')) :
    read s = none := by
  unfold read
  dsimp only
  cases first : readNumber 10 (some 3) 255 false s with
  | none => rfl
  | some p =>
    obtain ⟨v, r⟩ := p
    have left := rest_of_readNumber first
    cases second : readByte (byte '.') r with
    | none => simp only [Option.bind_eq_bind, Option.bind_some, second, Option.bind_none]
    | some t =>
      rw [readByte_eq_some second] at left
      rw [← left] at other
      exact absurd rfl other

end Ipv4

/-! ## Groups -/

namespace Ipv6

/-- What comes next is neither a digit nor a point, and no further group. -/
structure EndsGroups (s : Bytes) : Prop where
  digit : EndsNumber s
  point : s.head? ≠ some (byte '.')
  group : ∀ r, readByte (byte ':') s = some r → EndsNumber r

theorem endsGroups_cons {b : UInt8} (valueless : hexValue? b = none) (point : b ≠ byte '.')
    (colon : b ≠ byte ':') (s : Bytes) : EndsGroups (b :: s) := by
  refine ⟨endsNumber_cons valueless s, ?_, ?_⟩
  · rintro ⟨⟩
    exact point rfl
  · intro r h
    rw [readByte_of_ne colon] at h
    cases h

/-- Two colons end the groups in front of them. -/
theorem endsGroups_colons (s : Bytes) : EndsGroups (byte ':' :: byte ':' :: s) := by
  refine ⟨endsNumber_cons rfl _, fun point => absurd (Option.some.inj point) (by decide), ?_⟩
  intro r h
  rw [readByte_self] at h
  rw [← Option.some.inj h]
  exact endsNumber_cons rfl s

theorem readNumber_group (g : UInt16) (ends : EndsNumber rest) :
    readNumber 16 (some 4) 0xFFFF true (hex g.toNat ++ rest) = some (g.toNat, rest) := by
  have size := g.toNat_lt
  apply writesDigits_hex.readNumber_write (by omega) _ ends
  rintro m ⟨⟩
  exact writesDigits_hex.length_le (by omega)

/-- The digits of a group are not those of four bytes. -/
theorem read_group (g : UInt16) (ends : EndsNumber rest) (point : rest.head? ≠ some (byte '.')) :
    Ipv4.read (hex g.toNat ++ rest) = none := by
  apply Ipv4.read_of_no_point
  have digits : ∀ d ∈ hex g.toNat, d ≠ byte '.' := by
    rintro d h rfl
    have digit := writesDigits_hex.isDigitIn h
    cases digit
  exact head?_dropWhile_part digits (ends.stops 10) point

/-- Further groups, each after a colon. -/
def later (gs : List UInt16) : Bytes := gs.flatMap fun g => byte ':' :: hex g.toNat

theorem joined_cons (g : UInt16) (gs : List UInt16) : joined (g :: gs) = hex g.toNat ++ later gs := by
  induction gs generalizing g with
  | nil => exact (List.append_nil _).symm
  | cons h gs ih =>
    rw [joined, ih]
    · rfl
    · exact List.cons_ne_nil h gs

/-- What follows a group is a colon, or ends the groups. -/
theorem ends_later (gs : List UInt16) (ends : EndsGroups rest) :
    EndsNumber (later gs ++ rest) ∧ (later gs ++ rest).head? ≠ some (byte '.') := by
  cases gs with
  | nil => exact ⟨ends.digit, ends.point⟩
  | cons g gs => exact ⟨endsNumber_cons rfl _, fun point => absurd (Option.some.inj point) (by decide)⟩

/-- A group at its place: the first, or one behind a colon. -/
theorem readGroups_cons {slots : Nat} {first : Bool} {s r : Bytes} {g : UInt16} (digit : EndsNumber r)
    (point : r.head? ≠ some (byte '.'))
    (start : (if first then some s else readByte (byte ':') s) = some (hex g.toNat ++ r)) :
    readGroups (slots + 1) first s =
      let (gs, points, r) := readGroups slots false r
      (g :: gs, points, r) := by
  have no_bytes : (if 1 ≤ slots then Ipv4.read (hex g.toNat ++ r) else none) = none := by
    rw [read_group g digit point, ite_self]
  rw [readGroups]
  simp only [start, no_bytes, Option.bind_some, readNumber_group g digit, Nat.toUInt16_eq,
    UInt16.ofNat_toNat]

/-- No group is read where none begins. -/
theorem readGroups_none {slots : Nat} {first : Bool} {s : Bytes}
    (start : ∀ r, (if first then some s else readByte (byte ':') s) = some r → EndsNumber r) :
    readGroups slots first s = ([], false, s) := by
  cases slots with
  | zero => rfl
  | succ slots =>
    have none_read {α : Type} {f : Bytes → Option α} (fails : ∀ r, EndsNumber r → f r = none) :
        (if first then some s else readByte (byte ':') s).bind f = none := by
      cases begun : (if first then some s else readByte (byte ':') s) with
      | none => rfl
      | some r => exact fails r (start r begun)
    rw [readGroups]
    simp only [none_read fun r => Ipv4.read_of_ends, none_read fun r => readNumber_of_ends, ite_self]

theorem readGroups_later {slots : Nat} {gs : List UInt16} (fits : gs.length ≤ slots)
    (ends : EndsGroups rest) : readGroups slots false (later gs ++ rest) = (gs, false, rest) := by
  induction gs generalizing slots with
  | nil => exact readGroups_none ends.group
  | cons g gs ih =>
    obtain ⟨slots, rfl⟩ := Nat.exists_eq_add_of_le' (Nat.le_trans (Nat.succ_le_succ (Nat.zero_le _)) fits)
    have start : (if false = true then some (later (g :: gs) ++ rest)
        else readByte (byte ':') (later (g :: gs) ++ rest)) = some (hex g.toNat ++ (later gs ++ rest)) := by
      rw [if_neg Bool.false_ne_true, ← List.append_assoc]
      exact readByte_self _ _
    obtain ⟨digit, point⟩ := ends_later gs ends
    rw [readGroups_cons digit point start, ih (Nat.le_of_succ_le_succ fits)]

/-- Groups are read back over what may follow them. -/
theorem readGroups_joined {slots : Nat} {gs : List UInt16} (fits : gs.length ≤ slots)
    (ends : EndsGroups rest) : readGroups slots true (joined gs ++ rest) = (gs, false, rest) := by
  cases gs with
  | nil =>
    apply readGroups_none
    rintro r ⟨⟩
    exact ends.digit
  | cons g gs =>
    obtain ⟨slots, rfl⟩ := Nat.exists_eq_add_of_le' (Nat.le_trans (Nat.succ_le_succ (Nat.zero_le _)) fits)
    have start : (if true = true then some (joined (g :: gs) ++ rest)
        else readByte (byte ':') (joined (g :: gs) ++ rest)) = some (hex g.toNat ++ (later gs ++ rest)) := by
      rw [if_pos rfl, joined_cons, List.append_assoc]
    obtain ⟨digit, point⟩ := ends_later gs ends
    rw [readGroups_cons digit point start, readGroups_later (Nat.le_of_succ_le_succ fits) ends]

/-! ## Runs of zeros -/

/-- The run is a run of zeros in the groups. -/
def Run.StandsIn (run : Run) (gs : List UInt16) : Prop :=
  ∃ front back, gs = front ++ List.replicate run.length 0 ++ back ∧ front.length = run.start

/-- A run of no zeros, or one that the groups end with. -/
def Run.EndsWith (run : Run) (gs : List UInt16) : Prop :=
  run.length = 0 ∨ ∃ front, gs = front ++ List.replicate run.length 0 ∧ front.length = run.start

theorem Run.StandsIn.append {run : Run} {gs : List UInt16} (h : run.StandsIn gs) (more : List UInt16) :
    run.StandsIn (gs ++ more) := by
  obtain ⟨front, back, rfl, place⟩ := h
  exact ⟨front, back ++ more, List.append_assoc .., place⟩

/-- With one zero more a run at the end grows, or begins. -/
theorem Run.EndsWith.zero {run : Run} {gs : List UInt16} (h : run.EndsWith gs) :
    (if run.length = 0 then ⟨gs.length, 1⟩ else ⟨run.start, run.length + 1⟩ : Run).EndsWith (gs ++ [0]) := by
  split
  · exact .inr ⟨gs, rfl, rfl⟩
  · rename_i longer
    obtain ⟨front, rfl, place⟩ := h.resolve_left longer
    refine .inr ⟨front, ?_, place⟩
    rw [List.append_assoc, List.replicate_succ']

theorem Run.EndsWith.standsIn {run : Run} {gs : List UInt16} (h : run.EndsWith gs) (some_zero : run.length ≠ 0) :
    run.StandsIn gs := by
  obtain ⟨front, rfl, place⟩ := h.resolve_left some_zero
  exact ⟨front, [], (List.append_nil _).symm, place⟩

/-- The longest run stands in the groups, whether it was found before or goes on at the current place. -/
theorem longestRun_standsIn {past gs : List UInt16} {current best : Run} (ends : current.EndsWith past)
    (stands : best.StandsIn past) :
    (longestRun past.length current best gs).StandsIn (past ++ gs) := by
  induction gs generalizing past current best with
  | nil => exact stands.append []
  | cons g gs ih =>
    have next : past ++ g :: gs = past ++ [g] ++ gs := (List.append_assoc past [g] gs).symm
    have place : past.length + 1 = (past ++ [g]).length := by rw [List.length_append, List.length_singleton]
    rw [longestRun, next]
    split
    · rename_i zero
      dsimp only
      rw [zero] at place ⊢
      rw [place]
      have grown := ends.zero
      refine ih grown ?_
      generalize (if current.length = 0 then ⟨past.length, 1⟩
        else ⟨current.start, current.length + 1⟩ : Run) = run at grown ⊢
      split
      · rename_i longer
        exact grown.standsIn (Nat.ne_zero_of_lt longer)
      · exact stands.append [0]
    · rw [place]
      exact ih (.inl rfl) (stands.append [g])

/-! ## Eight groups -/

/-- Two colons stand for the groups that are missing, where at least one is. -/
theorem read_colons {front back : List UInt16} {size points tail} (ip : Ipv6)
    (groups : ip.groups = front ++ List.replicate size 0 ++ back) (left_out : 0 < size)
    (tail_read : readGroups (7 - front.length) true tail = (back, points, rest)) :
    read (joined front ++ byte ':' :: byte ':' :: tail) = some (ip, rest) := by
  have eight := ip.size
  rw [groups, List.length_append, List.length_append, List.length_replicate] at eight
  have head : readGroups 8 true (joined front ++ byte ':' :: byte ':' :: tail) =
      (front, false, byte ':' :: byte ':' :: tail) :=
    readGroups_joined (by omega) (endsGroups_colons tail)
  have filled : front ++ List.replicate (8 - front.length - back.length) 0 ++ back = ip.groups := by
    rw [groups, show 8 - front.length - back.length = size by omega]
  rw [read]
  simp only [head, dif_neg (show ¬ front.length = 8 by omega), Bool.false_eq_true, if_false, readByte_self,
    Option.bind_eq_bind, Option.bind_some, tail_read, filled, dif_pos ip.size]

/-- Eight groups are read back, whatever run of zeros is left out. -/
theorem read_bytes (ip : Ipv6) (ends : EndsGroups rest) : read (ip.bytes ++ rest) = some (ip, rest) := by
  have none_yet : (⟨0, 0⟩ : Run).EndsWith [] := .inl rfl
  have stands : (longestRun 0 ⟨0, 0⟩ ⟨0, 0⟩ ip.groups).StandsIn ip.groups :=
    longestRun_standsIn none_yet ⟨[], [], rfl, rfl⟩
  rw [bytes]
  generalize longestRun 0 ⟨0, 0⟩ ⟨0, 0⟩ ip.groups = run at stands
  obtain ⟨front, back, groups, place⟩ := stands
  have eight := ip.size
  rw [groups, List.length_append, List.length_append, List.length_replicate] at eight
  split
  · rename_i longer
    have before : ip.groups.take run.start = front := by
      rw [groups, List.append_assoc, ← place, List.take_left]
    have after : ip.groups.drop (run.start + run.length) = back := by
      have size : (front ++ List.replicate run.length (0 : UInt16)).length = run.start + run.length := by
        rw [List.length_append, List.length_replicate, place]
      rw [groups, ← size, List.drop_left]
    rw [before, after, List.append_assoc, List.cons_append, List.cons_append]
    exact read_colons ip groups (by omega) (readGroups_joined (by omega) ends)
  · have all : readGroups 8 true (joined ip.groups ++ rest) = (ip.groups, false, rest) :=
      readGroups_joined (Nat.le_of_eq ip.size) ends
    rw [read]
    simp only [all, dif_pos ip.size]

/-! ## Embedded addresses -/

/-- The two groups of four bytes. -/
def pair (ip : Ipv4) : List UInt16 :=
  [(ip.a.toNat * 0x100 + ip.b.toNat).toUInt16, (ip.c.toNat * 0x100 + ip.d.toNat).toUInt16]

theorem pair_ofNat (g h : UInt16) : pair (Ipv4.ofNat (g.toNat * 0x10000 + h.toNat)) = [g, h] := by
  have first := g.toNat_lt
  have second := h.toNat_lt
  simp only [pair, Ipv4.ofNat, Nat.toUInt8_eq, Nat.toUInt16_eq, UInt8.toNat_ofNat', List.cons.injEq,
    ← UInt16.toNat_inj, UInt16.toNat_ofNat', and_true]
  constructor <;> omega

theorem groups_of_embedded? {ip : Ipv6} {short : Ipv4} (h : ip.embedded? = some short) :
    ip.groups = [] ++ List.replicate 5 0 ++ 0xFFFF :: pair short := by
  unfold embedded? at h
  split at h
  · rename_i g h' groups
    rw [groups, ← Option.some.inj h, pair_ofNat]
    rfl
  · cases h

/-- Where two groups are left, four bytes fill them. -/
theorem readGroups_bytes (slots : Nat) (ip : Ipv4) (ends : EndsNumber rest) :
    readGroups (slots + 2) false (byte ':' :: (ip.bytes ++ rest)) = (pair ip, true, rest) := by
  rw [readGroups]
  simp only [Bool.false_eq_true, if_false, readByte_self, Option.bind_some, Ipv4.read_bytes ip ends,
    if_pos (Nat.le_add_left 1 slots)]
  rfl

theorem hex_ones : hex (0xFFFF : UInt16).toNat = Ascii.bytes "ffff" := by
  have digits : (0xFFFF : UInt16).toNat = 0xFFFF := rfl
  rw [digits, hex, if_neg (by decide), hex, if_neg (by decide), hex, if_neg (by decide), hex,
    if_pos (by decide)]
  rfl

theorem read_embedded {ip : Ipv6} {short : Ipv4} (h : ip.embedded? = some short)
    (ends : EndsNumber rest) :
    read (Ascii.bytes "::ffff:" ++ short.bytes ++ rest) = some (ip, rest) := by
  have tail : readGroups 7 true (Ascii.bytes "ffff" ++ byte ':' :: (short.bytes ++ rest)) =
      (0xFFFF :: pair short, true, rest) := by
    have colon : EndsNumber (byte ':' :: (short.bytes ++ rest)) := endsNumber_cons rfl _
    have no_point : (byte ':' :: (short.bytes ++ rest)).head? ≠ some (byte '.') :=
      fun point => absurd (Option.some.inj point) (by decide)
    have ones : (if true = true then some (hex (0xFFFF : UInt16).toNat ++ byte ':' :: (short.bytes ++ rest))
        else readByte (byte ':') (hex (0xFFFF : UInt16).toNat ++ byte ':' :: (short.bytes ++ rest))) =
          some (hex (0xFFFF : UInt16).toNat ++ byte ':' :: (short.bytes ++ rest)) := rfl
    rw [← hex_ones, readGroups_cons colon no_point ones, readGroups_bytes 4 short ends]
  exact read_colons ip (groups_of_embedded? h) (by decide) tail

end Ipv6

/-! ## Socket addresses -/

namespace SocketAddress

theorem read_hostBytes (ip : Ipv6) (port : UInt16) (scope : UInt32) (ends : Ipv6.EndsGroups rest) :
    Ipv6.read ((v6 ip port scope).hostBytes ++ rest) = some (ip, rest) := by
  rw [hostBytes]
  cases embedded : ip.embedded? with
  | none => exact ip.read_bytes ends
  | some short => exact Ipv6.read_embedded embedded ends.digit

theorem readPort_decimal (p : UInt16) : readPort (byte ':' :: decimal p.toNat) = some (p, []) := by
  have size := p.toNat_lt
  have read : readNumber 10 none 0xFFFF true (decimal p.toNat ++ []) = some (p.toNat, []) :=
    writesDigits_decimal.readNumber_write (by omega) (by rintro m ⟨⟩) endsNumber_nil
  rw [List.append_nil] at read
  simp only [readPort, readByte_self, Option.bind_eq_bind, Option.bind_some, read, Nat.toUInt16_eq,
    UInt16.ofNat_toNat]

/-- The sign of a scope and its number; nothing for a scope of zero. -/
def scopeBytes (scope : UInt32) : Bytes := if scope = 0 then [] else byte '%' :: decimal scope.toNat

theorem readScope_scopeBytes (scope : UInt32) (s : Bytes) :
    readScope (scopeBytes scope ++ byte ']' :: s) = some (scope, byte ']' :: s) := by
  unfold scopeBytes
  split
  · rename_i zero
    rw [List.nil_append, readScope, readByte_of_ne (by decide), zero]
  · have size := scope.toNat_lt
    have read : readNumber 10 none 0xFFFFFFFF true (decimal scope.toNat ++ byte ']' :: s) =
        some (scope.toNat, byte ']' :: s) :=
      writesDigits_decimal.readNumber_write (by omega) (by rintro m ⟨⟩) (endsNumber_cons rfl s)
    rw [List.cons_append, readScope, readByte_self]
    simp only [read, Option.map_some, Nat.toUInt32_eq, UInt32.ofNat_toNat]

theorem endsGroups_scopeBytes (scope : UInt32) (s : Bytes) :
    Ipv6.EndsGroups (scopeBytes scope ++ byte ']' :: s) := by
  unfold scopeBytes
  split
  · exact Ipv6.endsGroups_cons rfl (by decide) (by decide) s
  · exact Ipv6.endsGroups_cons rfl (by decide) (by decide) _

/-- An address is read back from the bytes that it is shown as. -/
theorem ofBytes?_bytes (a : SocketAddress) : ofBytes? a.bytes = some a := by
  cases a with
  | v4 ip p =>
    have read : Ipv4.read (ip.bytes ++ byte ':' :: decimal p.toNat) = some (ip, byte ':' :: decimal p.toNat) :=
      ip.read_bytes (endsNumber_cons rfl _)
    simp only [ofBytes?, bytes, hostBytes, read, Option.bind_eq_bind, Option.bind_some, readPort_decimal,
      Option.some_or]
  | v6 ip p scope =>
    have written : (v6 ip p scope).bytes = byte '[' :: ((v6 ip p scope).hostBytes ++
        (scopeBytes scope ++ byte ']' :: (byte ':' :: decimal p.toNat))) := by
      simp only [bytes, scopeBytes, List.cons_append, List.append_assoc]
    have short : Ipv4.read (v6 ip p scope).bytes = none := by
      rw [written]
      exact Ipv4.read_of_ends (endsNumber_cons rfl _)
    have read := read_hostBytes ip p scope (endsGroups_scopeBytes scope (byte ':' :: decimal p.toNat))
    simp only [ofBytes?, short, Option.bind_eq_bind, Option.bind_none, Option.none_or]
    simp only [written, readByte_self, Option.bind_some, read, readScope_scopeBytes, readPort_decimal]

end SocketAddress

/-! ## Texts -/

/-- A byte that addresses without a port are written with: a digit, a point or a colon. -/
def IsAddressByte (b : UInt8) : Prop := (hexValue? b).isSome ∨ b = byte '.' ∨ b = byte ':'

theorem IsAddressByte.ascii {b : UInt8} (h : IsAddressByte b) : b.toNat < 0x80 := by
  rcases h with digit | rfl | rfl
  · have digits : ∀ v < 16, (upperHex v).toNat < 0x80 ∧ (lowerHex v).toNat < 0x80 := by decide
    obtain ⟨v, value⟩ := Option.isSome_iff_exists.mp digit
    obtain ⟨below, rfl | rfl⟩ := hexValue?_eq_some_iff.mp value
    · exact (digits v below).1
    · exact (digits v below).2
  · decide
  · decide

theorem WritesDigits.isAddressByte {write : Nat → Bytes} (w : WritesDigits base write) {n : Nat} {b : UInt8}
    (h : b ∈ write n) : IsAddressByte b := by
  have digit := w.isDigitIn h
  unfold GuideRig.isDigitIn at digit
  split at digit
  · rename_i v value
    exact .inl (Option.isSome_iff_exists.mpr ⟨v, value⟩)
  · cases digit

theorem Ipv4.isAddressByte_of_mem {ip : Ipv4} {b : UInt8} (h : b ∈ ip.bytes) : IsAddressByte b := by
  simp only [Ipv4.bytes, List.mem_append, List.mem_cons] at h
  rcases h with ((number | point | number) | point | number) | point | number
  all_goals first
    | exact writesDigits_decimal.isAddressByte number
    | exact .inr (.inl point)

theorem Ipv6.isAddressByte_of_mem_joined {gs : List UInt16} {b : UInt8} (h : b ∈ joined gs) :
    IsAddressByte b := by
  cases gs with
  | nil => cases h
  | cons g gs =>
    rw [joined_cons] at h
    rcases List.mem_append.mp h with number | more
    · exact writesDigits_hex.isAddressByte number
    obtain ⟨_, -, written⟩ := List.mem_flatMap.mp more
    rcases List.mem_cons.mp written with colon | number
    · exact .inr (.inr colon)
    · exact writesDigits_hex.isAddressByte number

theorem Ipv6.isAddressByte_of_mem {ip : Ipv6} {b : UInt8} (h : b ∈ ip.bytes) : IsAddressByte b := by
  unfold Ipv6.bytes at h
  dsimp only at h
  split at h
  · simp only [List.mem_append, List.mem_cons] at h
    rcases h with front | colon | colon | back
    · exact isAddressByte_of_mem_joined front
    · exact .inr (.inr colon)
    · exact .inr (.inr colon)
    · exact isAddressByte_of_mem_joined back
  · exact isAddressByte_of_mem_joined h

namespace SocketAddress

/-- Addresses are written in ASCII. -/
theorem ascii_of_mem_bytes {a : SocketAddress} {b : UInt8} (h : b ∈ a.bytes) : b.toNat < 0x80 := by
  have number {n : Nat} (h : b ∈ decimal n) : b.toNat < 0x80 := (writesDigits_decimal.isAddressByte h).ascii
  have sign {c : Char} (h : b = byte c) (ascii : (byte c).toNat < 0x80) : b.toNat < 0x80 := h ▸ ascii
  cases a with
  | v4 ip p =>
    simp only [bytes, hostBytes, List.mem_append, List.mem_cons] at h
    rcases h with host | colon | port
    · exact (Ipv4.isAddressByte_of_mem host).ascii
    · exact sign colon (by decide)
    · exact number port
  | v6 ip p scope =>
    have host (h : b ∈ (v6 ip p scope).hostBytes) : b.toNat < 0x80 := by
      unfold hostBytes at h
      dsimp only at h
      split at h
      · rcases List.mem_append.mp h with mark | short
        · have ascii : (Ascii.bytes "::ffff:").all (fun b => decide (b.toNat < 0x80)) = true := by decide
          exact of_decide_eq_true (List.all_eq_true.mp ascii b mark)
        · exact (Ipv4.isAddressByte_of_mem short).ascii
      · exact (Ipv6.isAddressByte_of_mem h).ascii
    have percent (h : b ∈ scopeBytes scope) : b.toNat < 0x80 := by
      unfold scopeBytes at h
      split at h
      · cases h
      · rcases List.mem_cons.mp h with sign' | n
        · exact sign sign' (by decide)
        · exact number n
    simp only [bytes, List.mem_append, List.mem_cons] at h
    rcases h with ((bracket | inside) | scope) | bracket | colon | port
    · exact sign bracket (by decide)
    · exact host inside
    · exact percent scope
    · exact sign bracket (by decide)
    · exact sign colon (by decide)
    · exact number port

/-- An address is read back from its text. -/
theorem ofText?_text (a : SocketAddress) : ofText? a.text = some a := by
  rw [ofText?, text, encode_text fun _ => ascii_of_mem_bytes, ofBytes?_bytes]

end SocketAddress

end GuideRig
