/-
# GuideRig.Proofs.Url.Read -- what stands in the URLs of the web

However a URL of the web is written, it is held in one form: its path begins with a slash and, like its
host, is made of bytes that are seen when printed, none of which begins a fragment (`Url.IsPresentable`).
For the path this is an invariant of reading it segment by segment (`IsRooted`): what goes up a folder
never takes the first slash away, and what is added has been escaped before. Relative references keep to
the same form.
-/

import Mathlib.Data.List.Basic
import Mathlib.Data.List.TakeWhile
import GuideRig.Proofs.Net.Address
import GuideRig.Proofs.Query.Form
import GuideRig.Url.Read

namespace GuideRig

open Ascii

namespace Url

/-! ## Visible bytes -/

/-- A byte of ASCII that is seen when printed and begins no fragment. -/
def IsVisible (b : UInt8) : Prop := 0x20 < b.toNat ∧ b.toNat < 0x7F ∧ b ≠ byte '#'

instance (b : UInt8) : Decidable (IsVisible b) := inferInstanceAs (Decidable (_ ∧ _ ∧ _))

theorem isVisible_slash : IsVisible (byte '/') := by decide

/-- Of fixed bytes it can be checked that they are visible. -/
theorem forall_isVisible_of_all {s : Bytes} (h : s.all (fun b => decide (IsVisible b)) = true) :
    ∀ b ∈ s, IsVisible b := by
  intro b hb
  exact of_decide_eq_true (List.all_eq_true.mp h b hb)

theorem isVisible_of_isControl {b : UInt8} (control : Host.isControl b = false) (space : b ≠ byte ' ')
    (hash : b ≠ byte '#') : IsVisible b := by
  have blank : (byte ' ').toNat = 0x20 := rfl
  have apart : b.toNat ≠ 0x20 := by
    intro same
    exact space (UInt8.toNat_inj.mp (same.trans blank.symm))
  simp only [Host.isControl, Bool.or_eq_false_iff, decide_eq_false_iff_not, UInt8.lt_iff_toNat_lt] at control
  obtain ⟨low, high⟩ := control
  change ¬ b.toNat < 0x20 at low
  change ¬ 0x7E < b.toNat at high
  exact ⟨by omega, by omega, hash⟩

theorem isVisible_of_keptInPath {b : UInt8} (kept : keptInPath b = true) : IsVisible b := by
  simp only [keptInPath, keptInFragment, Bool.and_eq_true, Bool.not_eq_true'] at kept
  obtain ⟨⟨control, quoted⟩, reserved⟩ := kept
  apply isVisible_of_isControl control
  · rintro rfl
    exact absurd quoted (by decide)
  · rintro rfl
    exact absurd reserved (by decide)

theorem isVisible_of_isForbidden {b : UInt8} (free : Host.isForbidden b = false) : IsVisible b := by
  simp only [Host.isForbidden, Bool.or_eq_false_iff] at free
  obtain ⟨⟨control, space⟩, reserved⟩ := free
  apply isVisible_of_isControl control
  · rintro rfl
    exact absurd space (by decide)
  · rintro rfl
    exact absurd reserved (by decide)

/-- Letters and digits come after the sign that begins a fragment. -/
theorem isVisible_of_isAlphanumeric {b : UInt8} (letter : isAlphanumeric b = true) : IsVisible b := by
  have bounds : (byte 'A').toNat = 65 ∧ (byte 'Z').toNat = 90 ∧ (byte 'a').toNat = 97 ∧
      (byte 'z').toNat = 122 ∧ (byte '#').toNat = 35 := ⟨rfl, rfl, rfl, rfl, rfl⟩
  simp only [isAlphanumeric, isAlpha, isUpper, isLower, Bool.or_eq_true, Bool.and_eq_true,
    decide_eq_true_eq, UInt8.le_iff_toNat_le, isDigit_iff] at letter
  refine ⟨by omega, by omega, ?_⟩
  rintro rfl
  omega

theorem isVisible_of_mem_escape {b d : UInt8} (h : d ∈ Percent.escape b) : IsVisible d := by
  have digits : ∀ n < 16, IsVisible (upperHex n) := by decide
  have size := b.toNat_lt
  simp only [Percent.escape, List.mem_cons, List.not_mem_nil, or_false] at h
  rcases h with rfl | rfl | rfl
  · decide
  · exact digits _ (by omega)
  · exact digits _ (by omega)

/-- Where only visible bytes stand for themselves, what is written is visible. -/
theorem isVisible_of_mem_encode {keep : UInt8 → Bool} (visible : ∀ b, keep b = true → IsVisible b)
    {s : Bytes} {d : UInt8} (h : d ∈ Percent.encode keep s) : IsVisible d := by
  obtain ⟨b, -, written⟩ := List.mem_flatMap.mp h
  split at written
  · rename_i kept
    rw [List.mem_singleton.mp written]
    exact visible b kept
  · exact isVisible_of_mem_escape written

theorem isVisible_of_mem_decimal {n : ℕ} {d : UInt8} (h : d ∈ decimal n) : IsVisible d := by
  apply isVisible_of_isAlphanumeric
  rw [isAlphanumeric, isDigit_of_mem_decimal h, Bool.or_true]

/-- All bytes of a form query, letters and digits first, come after the sign that begins a fragment. -/
theorem isVisible_of_isFormByte {b : UInt8} (form : Query.IsFormByte b) : IsVisible b := by
  have signs : ∀ b ∈ bytes "*-._+%=", IsVisible b := forall_isVisible_of_all (by decide)
  rcases form with letter | sign
  · exact isVisible_of_isAlphanumeric letter
  · exact signs b sign

theorem isVisible_of_mem_ofPair {name value : String} {d : UInt8} (h : d ∈ Query.ofPair name value) :
    IsVisible d :=
  isVisible_of_isFormByte (Query.isFormByte_of_mem_ofPair h)

/-! ## Paths -/

/-- A path in reverse that is made of visible bytes and ends, which is where the path begins, with a
slash. -/
structure IsRooted (path : Bytes) : Prop where
  visible : ∀ b ∈ path, IsVisible b
  root : path.getLast? = some (byte '/')

namespace IsRooted

variable {scheme path : Bytes}

theorem slash_mem (h : IsRooted path) : byte '/' ∈ path := List.mem_of_getLast? h.root

/-- What goes back on a path, but not behind its first slash, is rooted like the path. -/
theorem of_suffix {rest : Bytes} (h : IsRooted path) (back : rest <:+ path) (slash : byte '/' ∈ rest) :
    IsRooted rest := by
  obtain ⟨gone, rfl⟩ := back
  refine ⟨fun b hb => h.visible b (List.mem_append_right gone hb), ?_⟩
  rw [← h.root, List.getLast?_append_of_ne_nil _ (List.ne_nil_of_mem slash)]

/-- Visible bytes may be put after a path. -/
theorem append {more : Bytes} (h : IsRooted path) (visible : ∀ b ∈ more, IsVisible b) :
    IsRooted (more ++ path) := by
  refine ⟨fun b hb => ?_, ?_⟩
  · rcases List.mem_append.mp hb with new | old
    · exact visible b new
    · exact h.visible b old
  · rw [List.getLast?_append_of_ne_nil _ (List.ne_nil_of_mem h.slash_mem), h.root]

/-- Leaving the last segment stops at a slash. -/
theorem dropWhile (h : IsRooted path) : IsRooted (path.dropWhile (· != byte '/')) := by
  apply h.of_suffix (List.dropWhile_suffix _)
  have slash := h.slash_mem
  clear h
  induction path with
  | nil => cases slash
  | cons b rest ih =>
    by_cases here : b = byte '/'
    · rw [List.dropWhile_cons_of_neg (by simp [here]), here]
      exact List.mem_cons_self
    · rw [List.dropWhile_cons_of_pos (by simp [here])]
      exact ih ((List.mem_cons.mp slash).resolve_left (Ne.symm here))

theorem parent (h : IsRooted path) : IsRooted (Url.parent scheme path) := by
  have left : ∀ path, IsRooted path → IsRooted
      (if isFile scheme && isDrive (lastOf path) then path else path.dropWhile (· != byte '/')) := by
    intro path h
    split
    · exact h
    · exact h.dropWhile
  unfold Url.parent
  apply left
  cases path with
  | nil => exact h
  | cons b rest =>
    dsimp only
    split
    · rename_i other
      simp only [Bool.and_eq_true, List.contains_iff_mem] at other
      exact h.of_suffix (List.suffix_cons b rest) other.1.2
    · exact h

theorem closed (h : IsRooted path) : IsRooted (Url.closed path) := by
  unfold Url.closed
  split
  · exact h
  · show IsRooted ([byte '/'] ++ path)
    exact h.append (List.forall_mem_singleton.mpr isVisible_slash)

/-- A segment more, wherever it leads. -/
theorem segment {s : Bytes} (h : IsRooted path) (visible : ∀ b ∈ s, IsVisible b) (slash : Bool) :
    IsRooted (Url.append scheme path s slash) := by
  -- a drive is written with a colon, whichever sign it came with
  have named : ∀ drive : Bool, ∀ b ∈ (if drive = true then s.take 1 ++ [byte ':'] else s),
      IsVisible b := by
    intro drive b hb
    cases drive with
    | false => exact visible b hb
    | true =>
      rcases List.mem_append.mp hb with letter | colon
      · exact visible b (List.mem_of_mem_take letter)
      · rw [List.mem_singleton.mp colon]
        decide
  unfold Url.append
  split
  · split
    · exact h.parent.closed
    · exact h.parent
  split
  · exact h.closed
  · apply h.append
    intro b hb
    rcases List.mem_append.mp hb with front | back
    · cases slash with
      | false => cases front
      | true =>
        rw [List.mem_singleton.mp front]
        decide
    · exact named _ b (List.mem_reverse.mp back)

theorem walk {pieces : List Bytes} (h : IsRooted path)
    (visible : ∀ s ∈ pieces, ∀ b ∈ s, IsVisible b) : IsRooted (Url.walk scheme path pieces) := by
  induction pieces generalizing path with
  | nil => exact h
  | cons s rest ih =>
    have first := visible s List.mem_cons_self
    cases rest with
    | nil => exact h.segment first false
    | cons t rest =>
      rw [Url.walk]
      · exact ih (h.segment first true) fun s hs => visible s (List.mem_cons_of_mem _ hs)
      · simp

end IsRooted

theorem isRooted_slash : IsRooted [byte '/'] :=
  ⟨List.forall_mem_singleton.mpr isVisible_slash, rfl⟩

/-- Paths are read into their form. -/
theorem isRooted_readPath {scheme path text : Bytes} (remote : isFile scheme = false)
    (h : IsRooted path.reverse) : IsRooted (readPath scheme path text).reverse := by
  rw [readPath, remote, if_neg Bool.false_ne_true, List.reverse_reverse]
  apply h.walk
  intro s hs b hb
  obtain ⟨piece, -, rfl⟩ := List.mem_map.mp hs
  exact isVisible_of_mem_encode (fun b => isVisible_of_keptInPath) hb

theorem isRooted_readPathStart {scheme text : Bytes} (special : isSpecial scheme = true)
    (remote : isFile scheme = false) : IsRooted (readPathStart scheme text).reverse := by
  unfold readPathStart
  rw [if_pos special]
  cases text with
  | nil => exact isRooted_readPath remote isRooted_slash
  | cons b rest => exact isRooted_readPath remote isRooted_slash

/-- The folder of a path is rooted like the path. -/
theorem isRooted_folder {scheme path : Bytes} (h : IsRooted path.reverse) :
    IsRooted (folder scheme path).reverse := by
  unfold folder
  split
  · exact isRooted_slash
  split
  · rw [List.reverse_append]
    exact h.append (List.forall_mem_singleton.mpr isVisible_slash)
  · rw [directory, List.reverse_reverse]
    exact h.dropWhile

/-! ## Hosts -/

/-- A byte that a host is shown with: one that a name may hold, or a sign of an address. -/
def IsHostByte (b : UInt8) : Prop := Host.isForbidden b = false ∨ b ∈ bytes "[:]"

instance (b : UInt8) : Decidable (IsHostByte b) := inferInstanceAs (Decidable (_ ∨ _))

theorem IsHostByte.isVisible {b : UInt8} (h : IsHostByte b) : IsVisible b := by
  have signs : ∀ b ∈ bytes "[:]", IsVisible b := forall_isVisible_of_all (by decide)
  rcases h with free | sign
  · exact isVisible_of_isForbidden free
  · exact signs b sign

/-- Addresses are written in digits and signs. -/
theorem isHostByte_of_isAddressByte {b : UInt8} (h : IsAddressByte b) : IsHostByte b := by
  rcases h with digit | rfl | rfl
  · have digits : ∀ v < 16, IsHostByte (upperHex v) ∧ IsHostByte (lowerHex v) := by decide
    obtain ⟨v, value⟩ := Option.isSome_iff_exists.mp digit
    obtain ⟨below, rfl | rfl⟩ := hexValue?_eq_some_iff.mp value
    · exact (digits v below).1
    · exact (digits v below).2
  · decide
  · decide

/-- What is in brackets is an address. -/
theorem exists_of_bracketed {s : Bytes} {host : Host} (read : Host.bracketed s = .ok host) :
    ∃ ip, host = .v6 ip := by
  unfold Host.bracketed at read
  repeat' split at read
  all_goals cases read
  exact ⟨_, rfl⟩

/-- A host of the web is an address, or a name without a byte that no name may hold. -/
theorem isHostByte_of_mem_ofDomain {s : Bytes} {host : Host} (read : Host.ofDomain s = .ok host)
    {b : UInt8} (h : b ∈ host.bytes) : IsHostByte b := by
  unfold Host.ofDomain at read
  split at read
  · obtain ⟨ip, rfl⟩ := exists_of_bracketed read
    simp only [Host.bytes, List.cons_append, List.mem_cons, List.mem_append, List.not_mem_nil,
      or_false] at h
    rcases h with rfl | inside | rfl
    · decide
    · exact isHostByte_of_isAddressByte (Ipv6.isAddressByte_of_mem inside)
    · decide
  dsimp only at read
  split at read
  · cases read
  rename_i free
  split at read
  · cases read
  split at read
  · split at read
    · obtain rfl := Except.ok.inj read
      exact isHostByte_of_isAddressByte (Ipv4.isAddressByte_of_mem h)
    · cases read
  · obtain rfl := Except.ok.inj read
    apply Or.inl
    simpa using fun forbidden => free (List.any_eq_true.mpr ⟨b, h, forbidden⟩)

/-- The port is kept unless it goes without saying. -/
theorem port_ne_of_readPort {scheme s : Bytes} {port : Option UInt16}
    (read : readPort scheme s = .ok port) : ∀ p ∈ port, impliedPort? scheme ≠ some p := by
  rintro p ⟨⟩
  unfold readPort at read
  dsimp only at read
  split at read
  · cases read
  split at read
  · cases read
  split at read
  · cases read
  split at read
  · cases read
  · rename_i own
    rw [← Option.some.inj (Except.ok.inj read)]
    exact own

/-! ## URLs -/

/-- A URL as requests need it: its path is rooted, and what names its host is visible. -/
structure IsPresentable (u : Url) : Prop where
  path : IsRooted u.path.reverse
  host : ∀ b ∈ u.hostPort, IsVisible b

/-- A URL of a local file stays one. -/
theorem scheme_readFile {scheme text : Bytes} {u : Url} (read : readFile scheme text = .ok u) :
    u.scheme = scheme := by
  unfold readFile at read
  dsimp only at read
  repeat' split at read
  all_goals cases read
  all_goals rfl

/-- A URL with an authority has a host that was read, a port only if that says something, and its path
begins after them. -/
theorem exists_of_readAuthority {scheme text : Bytes} {u : Url}
    (read : readAuthority scheme text = .ok u) :
    ∃ part host name password port rest, readHost scheme part = .ok host ∧
      (∀ p ∈ port, impliedPort? scheme ≠ some p) ∧
      u = assemble scheme (some ⟨name, password, host, port⟩) (readPathStart scheme rest) true rest := by
  unfold readAuthority at read
  rcases splitUser (authorityPart (isSpecial scheme) text) with ⟨user, tail⟩
  dsimp only at read
  -- the text after the user decides nothing but which fault it is
  generalize text.drop _ = text at read
  split at read
  · cases read
  split at read
  · cases read
  rename_i host found
  split at read
  · cases read
  split at read
  · cases read
  rename_i port numbered
  split at read
  · cases read
  refine ⟨_, host, _, _, port, _, found, ?_, (Except.ok.inj read).symm⟩
  split at numbered
  · exact port_ne_of_readPort numbered
  · rw [← Except.ok.inj numbered]
    rintro p ⟨⟩

/-- What a text of the web's scheme is read as, whatever else the text may be. -/
theorem exists_of_http {s : Bytes} {u : Url} (read : ofBytes s = .ok u) (web : u.scheme = http) :
    ∃ part host name password port rest, Host.ofDomain part = .ok host ∧
      (∀ p ∈ port, impliedPort? http ≠ some p) ∧
      u = assemble http (some ⟨name, password, host, port⟩) (readPathStart http rest) true rest := by
  unfold ofBytes at read
  rcases begun : scheme? (significant s) with _ | ⟨scheme, rest⟩ <;> rw [begun] at read
  · cases read
  dsimp only at read
  -- every other kind of URL keeps its scheme, which is then not the web's
  split at read
  · rename_i file
    rw [← scheme_readFile read, web] at file
    exact absurd file (by decide)
  split at read
  · obtain ⟨part, host, name, password, port, rest, found, own, rfl⟩ := exists_of_readAuthority read
    obtain rfl : scheme = http := web
    unfold readHost at found
    rw [if_pos (by decide)] at found
    split at found
    · cases found
    · exact ⟨part, host, name, password, port, rest, found, own, rfl⟩
  · rename_i other
    have kept : u.scheme = scheme := by
      repeat' split at read
      · rw [← Except.ok.inj read]
        rfl
      · obtain ⟨_, _, _, _, _, _, -, -, rfl⟩ := exists_of_readAuthority read
        rfl
      · rw [← Except.ok.inj read]
        rfl
      · rw [← Except.ok.inj read]
        rfl
    rw [← kept, web] at other
    exact absurd rfl other

/-- Host and port of the web are shown with the bytes of hosts alone. -/
theorem isHostByte_of_mem_hostPort {s : Bytes} {u : Url} (read : ofBytes s = .ok u)
    (web : u.scheme = http) {b : UInt8} (h : b ∈ u.hostPort) : IsHostByte b := by
  obtain ⟨part, host, name, password, port, rest, found, -, rfl⟩ := exists_of_http read web
  simp only [assemble, hostPort, Authority.hostPort] at h
  rcases List.mem_append.mp h with named | after
  · exact isHostByte_of_mem_ofDomain found named
  · cases port with
    | none => cases after
    | some p =>
      rcases List.mem_cons.mp after with rfl | digit
      · decide
      · exact isHostByte_of_isAddressByte (writesDigits_decimal.isAddressByte digit)

/-- A URL of the web that is read from a text is presentable. -/
theorem isPresentable_of_ofText {text : String} {u : Url} (read : ofText text = .ok u)
    (web : u.scheme = http) : u.IsPresentable := by
  have special : isSpecial http = true := by decide
  have remote : isFile http = false := by decide
  constructor
  · obtain ⟨_, _, _, _, _, _, -, -, rfl⟩ := exists_of_http read web
    exact isRooted_readPathStart special remote
  · intro b hb
    exact (isHostByte_of_mem_hostPort read web hb).isVisible

namespace IsPresentable

variable {u v : Url}

/-- A visible segment leads to a presentable URL, of which it is the end. -/
theorem resolve {segment : Bytes} (h : u.IsPresentable) (resolved : u.resolve segment = .ok v)
    (visible : ∀ b ∈ segment, IsVisible b) : v.IsPresentable := by
  unfold Url.resolve at resolved
  split at resolved
  · rw [← Except.ok.inj resolved]
    constructor
    · rw [List.reverse_append]
      exact (isRooted_folder h.path).append fun b hb => visible b (List.mem_reverse.mp hb)
    · exact h.host
  · cases resolved

/-- What is asked for begins with a slash. -/
theorem head_target (h : u.IsPresentable) : u.target.head? = some (byte '/') := by
  have first : u.path.head? = some (byte '/') := by
    rw [← List.getLast?_reverse]
    exact h.path.root
  rw [target, List.head?_append, first]
  rfl

/-- What is asked for is visible, if the query is. -/
theorem isVisible_target (h : u.IsPresentable) (query : ∀ q ∈ u.query, ∀ b ∈ q, IsVisible b)
    {b : UInt8} (hb : b ∈ u.target) : IsVisible b := by
  rcases List.mem_append.mp hb with path | after
  · exact h.path.visible b (List.mem_reverse.mpr path)
  · cases asked : u.query with
    | none =>
      rw [asked] at after
      cases after
    | some q =>
      rw [asked] at after
      rcases List.mem_cons.mp after with rfl | inside
      · decide
      · exact query q asked b inside

end IsPresentable

end Url

end GuideRig
