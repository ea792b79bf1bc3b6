/-
# GuideRig.Proofs.Cli.Reader -- arguments are read as what they give

A command's reader accepts exactly the arguments that give texts which fill their slots, and of which one is
the argument without a name or the setting in its stead, and not both (`Command.read_eq_ok_iff`). It looks at
a value later than it has seen it, so what is still to be looked at belongs to its state (`Reading.waiting`).
That arguments which give texts are accepted goes by the rules of giving (`Gives.ends_iff`); that nothing else
is goes by the arguments, one at a time (`Reading.Ends.exists_gives`).
-/

import GuideRig.Proofs.Cli.Arguments
import GuideRig.Proofs.Text.Span

namespace GuideRig.Cli

variable {c : Command} {p : Place} {s : Setting} {slot : Slot} {arg text value : String} {args : List String}
variable {texts more : List (Slot × String)} {given full : Given} {plain : Bool} {r r' : Reading}

/-! ## Names and values -/

theorem Command.IsClear.find?_setting (clear : c.IsClear) (known : s ∈ c.settings) :
    (c.settings.find? fun other => other.name == s.name) = some s := by
  cases found : c.settings.find? fun other => other.name == s.name with
  | none =>
    have absent := List.find?_eq_none.mp found s known
    exact absurd (beq_self_eq_true s.name) absent
  | some other =>
    have same : other.name = s.name := by simpa using List.find?_some found
    have member := c.setting_mem (List.mem_of_find?_eq_some found)
    rw [Slot.setting.inj (clear.eq_of_name member (c.setting_mem known) same)]

/-- What stands behind the name of a setting in the same argument: its value, or nothing. -/
def behindName : Option String → List Char
  | none => []
  | some value => '=' :: value.toList

/-- A setting as it is written: its name, and its value if that stands in the same argument. -/
def written (name : String) : Option String → String
  | none => "--" ++ name
  | some value => "--" ++ name ++ "=" ++ value

theorem toList_written (name : String) (value : Option String) :
    (written name value).toList = '-' :: '-' :: (name.toList ++ behindName value) := by
  cases value <;> simp [written, behindName]

/-- A name without an equals sign is cut from what stands behind it. -/
theorem cutAtEquals_written {name : String} (uncut : '=' ∉ name.toList) (value : Option String) :
    Reading.cutAtEquals (name.toList ++ behindName value) = (name, value) := by
  have kind : ∀ ch ∈ name.toList, (ch != '=') = true := by
    intro ch member
    simpa using fun same : ch = '=' => uncut (same ▸ member)
  have stops : Stops (· != '=') (behindName value) := by
    cases value with
    | none => exact stops_nil _
    | some value => exact stops_cons rfl _
  rw [Reading.cutAtEquals, takeWhile_part kind stops, dropWhile_part kind stops]
  cases value <;> simp [behindName]

/-- An argument that begins with two dashes is written with the name and the value that it is cut into. -/
theorem eq_written {chars : List Char} (dashed : arg.toList = '-' :: '-' :: chars) :
    arg = written (Reading.cutAtEquals chars).1 (Reading.cutAtEquals chars).2 := by
  have whole : (Reading.cutAtEquals chars).1.toList ++ behindName (Reading.cutAtEquals chars).2 = chars := by
    have parts := List.takeWhile_append_dropWhile (p := (· != '=')) (l := chars)
    unfold Reading.cutAtEquals
    cases back : chars.dropWhile (· != '=') with
    | nil =>
      rw [back] at parts
      simpa [behindName] using parts
    | cons ch value =>
      have cut : ch = '=' := by
        have stopped := List.head?_dropWhile_not (· != '=') chars
        simpa [back] using stopped
      rw [back, cut] at parts
      simpa [behindName] using parts
  rw [← String.toList_inj, dashed, toList_written, whole]

/-! ## Reading one argument -/

namespace Reading

/-- The text that has been seen but not been looked at, and what it is for. -/
def waiting (r : Reading) : List (Slot × String) :=
  match r.pending with
  | some (slot, some text) => [(slot, text)]
  | _ => []

/-- No setting waits for its value. -/
def IsWhole (r : Reading) : Prop := ∀ slot, r.pending ≠ some (slot, none)

theorem give_eq_ok_iff : r.give slot text = .ok r' ↔
    ∃ full, Fills r.given [(slot, text)] full ∧ r' = { r with given := full } := by
  simp only [Fills.singleton_iff, ← lookup_eq_none_iff]
  rw [give]
  cases r.given.lookup slot.name with
  | some v => simp
  | none =>
    cases slot.kind.read text with
    | error e => cases e <;> simp
    | ok v => simp [eq_comm]

theorem settle_eq_ok_iff (whole : r.IsWhole) : r.settle = .ok r' ↔
    ∃ full, Fills r.given r.waiting full ∧ r' = { r with given := full, pending := none } := by
  obtain ⟨given, pending, plain, placed⟩ := r
  match pending, whole with
  | none, _ =>
    constructor
    · intro same
      exact ⟨given, .nil, (Except.ok.inj same).symm⟩
    · rintro ⟨full, fills, rfl⟩
      cases fills
      rfl
  | some (slot, none), whole => exact absurd rfl (whole slot)
  | some (slot, some text), _ => exact give_eq_ok_iff

/-- A setting that waits for its value has to be given it first. -/
theorem settle_ne_ok (waits : r.pending = some (slot, none)) : r.settle ≠ .ok r' := by
  rw [settle, waits]
  exact nofun

theorem readPlain_eq_ok_iff : r.readPlain c arg = .ok r' ↔ ∃ p, c.place = some p ∧ r.placed = false ∧
    ∃ settled, r.settle = .ok settled ∧
      r' = { settled with pending := some (.place p, some arg), placed := true } := by
  rw [readPlain]
  cases c.place with
  | none => simp
  | some p =>
    cases r.placed with
    | true => simp
    | false =>
      cases r.settle with
      | error e => simp
      | ok settled => simp [eq_comm]

theorem readValue_of_whole (whole : r.IsWhole) : r.readValue c arg = r.readPlain c arg := by
  rw [readValue]
  split
  · rename_i slot waits
    exact absurd waits (whole slot)
  · rfl

theorem readLong_setting (clear : c.IsClear) (known : s ∈ c.settings) (value : Option String) :
    r.readLong c s.name value = .ok r' ↔ ∃ settled, r.settle = .ok settled ∧ match value with
      | some text => settled.give (.setting s) text = .ok r'
      | none => r' = { settled with pending := some (.setting s, none) } := by
  unfold readLong
  rw [clear.find?_setting known]
  cases r.settle with
  | error e => simp
  | ok settled => cases value <;> simp [eq_comm]

theorem stopWith_ne_ok {stop : Stop} : r.stopWith stop ≠ .ok r' := by
  rw [stopWith]
  cases r.settle <;> exact nofun

theorem readShort_ne_ok {letter : Char} : r.readShort letter ≠ .ok r' := by
  rw [readShort]
  split
  · exact stopWith_ne_ok
  · split
    · exact stopWith_ne_ok
    · exact nofun

/-- Only the settings of a command are read by their names. -/
theorem setting_of_readLong {name : String} {value : Option String} (next : r.readLong c name value = .ok r') :
    ∃ s ∈ c.settings, s.name = name := by
  unfold readLong at next
  cases found : c.settings.find? fun s => s.name == name with
  | some s => exact ⟨s, List.mem_of_find?_eq_some found, by simpa using List.find?_some found⟩
  | none =>
    rw [found] at next
    dsimp only at next
    split at next
    · cases value with
      | none => exact absurd next stopWith_ne_ok
      | some text => cases next
    · cases next

section Step

variable (settings : r.plain = false)
include settings

theorem step_ended : r.step c "--" = .ok { r with plain := true } := by
  rw [step, settings]
  rfl

theorem step_free (free : IsFree arg) : r.step c arg = r.readValue c arg := by
  rw [step, settings, if_neg Bool.false_ne_true]
  split
  · rename_i dashes
    exact absurd dashes (free _ _)
  · rename_i dashed
    exact absurd dashed (free _ _)
  · rename_i dashed
    exact absurd dashed (free _ _)
  · rfl

theorem step_written {name : String} (named : name ≠ "") (uncut : '=' ∉ name.toList) (value : Option String) :
    r.step c (written name value) = r.readLong c name value := by
  have cut := cutAtEquals_written uncut value
  rw [step, settings, if_neg Bool.false_ne_true, toList_written]
  cases chars : name.toList ++ behindName value with
  | nil =>
    rw [chars] at cut
    exact absurd (congrArg Prod.fst cut).symm named
  | cons ch rest =>
    rw [chars] at cut
    show r.readLong c (cutAtEquals (ch :: rest)).1 (cutAtEquals (ch :: rest)).2 = _
    rw [cut]

/-- What is accepted next is the end of the settings, a setting, or a value. -/
theorem cases_of_step (next : r.step c arg = .ok r') : arg = "--" ∧ r' = { r with plain := true } ∨
    (∃ s ∈ c.settings, ∃ value, arg = written s.name value ∧ r.readLong c s.name value = .ok r') ∨
    IsFree arg ∧ r.readValue c arg = .ok r' := by
  rw [step, settings, if_neg Bool.false_ne_true] at next
  split at next
  · rename_i dashes
    exact .inl ⟨String.toList_inj.mp dashes, (Except.ok.inj next).symm⟩
  · rename_i dashed
    obtain ⟨s, known, name⟩ := setting_of_readLong next
    rw [← name] at next
    refine .inr (.inl ⟨s, known, _, ?_, next⟩)
    rw [name]
    exact eq_written dashed
  · exact absurd next readShort_ne_ok
  · rename_i undashed
    refine .inr (.inr ⟨?_, next⟩)
    intro letter s dashed
    exact undashed letter s dashed

end Step

/-! ## Reading all arguments -/

/-- From a state on arguments are read to their end, and give values. -/
def Ends (c : Command) (r : Reading) (args : List String) (given : Given) : Prop :=
  ∃ last, r.steps c args = .ok last ∧ last.finish c = .ok given

theorem ends_cons : r.Ends c (arg :: args) given ↔ ∃ r', r.step c arg = .ok r' ∧ r'.Ends c args given := by
  rw [Ends, steps]
  cases r.step c arg with
  | error e => simp
  | ok r' => simp [Ends]

theorem ends_nil : r.Ends c [] given ↔
    ∃ settled, r.settle = .ok settled ∧ together c settled.given = none ∧ settled.given = given := by
  have finish : r.Ends c [] given ↔ r.finish c = .ok given := by simp [Ends, steps]
  rw [finish, Reading.finish]
  cases r.settle with
  | error e => simp
  | ok settled => cases fit : together c settled.given <;> simp [fit]

section Arguments

variable (whole : r.IsWhole)
include whole

/-- A setting and its value in one argument: what has been waiting is looked at, and then the value. -/
theorem ends_joined (clear : c.IsClear) (known : s ∈ c.settings) (settings : r.plain = false) :
    r.Ends c (written s.name (some value) :: args) given ↔
      ∃ full, Fills r.given (r.waiting ++ [(.setting s, value)]) full ∧
        Ends c { r with given := full, pending := none } args given := by
  simp only [ends_cons, step_written settings (clear.named s known) (clear.uncut s known),
    readLong_setting clear known, settle_eq_ok_iff whole, give_eq_ok_iff, Fills.append_iff]
  constructor
  · rintro ⟨_, ⟨_, ⟨partly, first, rfl⟩, full, last, rfl⟩, ends⟩
    exact ⟨full, ⟨partly, first, last⟩, ends⟩
  · rintro ⟨full, ⟨partly, first, last⟩, ends⟩
    exact ⟨_, ⟨_, ⟨partly, first, rfl⟩, full, last, rfl⟩, ends⟩

/-- A setting and its value in an argument each: the value is now what is waiting. -/
theorem ends_apart (clear : c.IsClear) (known : s ∈ c.settings) (settings : r.plain = false)
    (free : IsFree value) :
    r.Ends c (written s.name none :: value :: args) given ↔
      ∃ full, Fills r.given r.waiting full ∧
        Ends c { r with given := full, pending := some (.setting s, some value) } args given := by
  have taken (full : Given) : step c { r with given := full, pending := some (.setting s, none) } value =
      .ok { r with given := full, pending := some (.setting s, some value) } := step_free settings free
  simp only [ends_cons, step_written settings (clear.named s known) (clear.uncut s known),
    readLong_setting clear known, settle_eq_ok_iff whole]
  constructor
  · rintro ⟨_, ⟨_, ⟨full, fills, rfl⟩, rfl⟩, r', next, ends⟩
    rw [taken] at next
    obtain rfl := Except.ok.inj next
    exact ⟨full, fills, ends⟩
  · rintro ⟨full, fills, ends⟩
    exact ⟨_, ⟨_, ⟨full, fills, rfl⟩, rfl⟩, _, taken full, ends⟩

/-- The argument without a name, which is taken once. -/
theorem ends_placed (hasPlace : c.place = some p) (free : r.plain = true ∨ IsFree value) :
    r.Ends c (value :: args) given ↔ r.placed = false ∧ ∃ full, Fills r.given r.waiting full ∧
      Ends c { r with given := full, pending := some (.place p, some value), placed := true } args given := by
  have step : r.step c value = r.readPlain c value := by
    rcases Bool.eq_false_or_eq_true r.plain with plain | settings
    · rw [Reading.step, if_pos plain]
    · rw [step_free settings (free.resolve_left (by simp [settings])), readValue_of_whole whole]
  simp only [ends_cons, step, readPlain_eq_ok_iff, settle_eq_ok_iff whole, hasPlace]
  constructor
  · rintro ⟨_, ⟨_, ⟨⟩, fresh, _, ⟨full, fills, rfl⟩, rfl⟩, ends⟩
    exact ⟨fresh, full, fills, ends⟩
  · rintro ⟨fresh, full, fills, ends⟩
    exact ⟨_, ⟨_, rfl, fresh, _, ⟨full, fills, rfl⟩, rfl⟩, ends⟩

end Arguments

/-- What is given before the state that follows, and from there on, fills the slots together. -/
theorem ends_iff_of_later {later : Given → Reading} {rest : List String}
    (next : r.Ends c args given ↔ ∃ full, Fills r.given texts full ∧ (later full).Ends c rest given)
    (ends : ∀ full, Fills r.given texts full →
      ((later full).Ends c rest given ↔ Fills full more given ∧ together c given = none)) :
    r.Ends c args given ↔ Fills r.given (texts ++ more) given ∧ together c given = none := by
  rw [next, Fills.append_iff]
  constructor
  · rintro ⟨full, first, goes⟩
    obtain ⟨last, fits⟩ := (ends full first).mp goes
    exact ⟨⟨full, first, last⟩, fits⟩
  · rintro ⟨⟨full, first, last⟩, fits⟩
    exact ⟨full, first, (ends full first).mpr ⟨last, fits⟩⟩

/-- Where the argument without a name has been seen its slot is filled, or will be. -/
def IsPlaced (c : Command) (r : Reading) : Prop :=
  r.placed = true → ∀ p, c.place = some p →
    p.name ∈ r.given.map Prod.fst ++ r.waiting.map fun e => e.1.name

/-- A state that has taken in what was waiting, and perhaps more, has filled the slots for which something
had been seen. -/
theorem IsPlaced.of_fills (isPlaced : r.IsPlaced c) (fills : Fills r.given (r.waiting ++ more) full)
    (pending : Option (Slot × Option String)) :
    IsPlaced c { r with given := full, pending := pending } := by
  intro placed p hasPlace
  apply List.mem_append_left
  rw [fills.names, List.map_append, ← List.append_assoc]
  exact List.mem_append_left _ (isPlaced placed p hasPlace)

theorem isPlaced_of_place (hasPlace : c.place = some p) (full : Given) (value : String) :
    IsPlaced c { r with given := full, pending := some (.place p, some value), placed := true } := by
  intro _ other hasOther
  obtain rfl := Option.some.inj (hasPlace.symm.trans hasOther)
  exact List.mem_append_right _ List.mem_cons_self

/-- The argument without a name is accepted if its slot is not filled before. -/
theorem ends_iff_of_placed (whole : r.IsWhole) (isPlaced : r.IsPlaced c) (hasPlace : c.place = some p)
    (free : r.plain = true ∨ IsFree value)
    (ends : ∀ full, Ends c { r with given := full, pending := some (.place p, some value), placed := true }
      args given ↔ Fills full ((.place p, value) :: texts) given ∧ together c given = none) :
    r.Ends c (value :: args) given ↔
      Fills r.given (r.waiting ++ (.place p, value) :: texts) given ∧ together c given = none := by
  rcases Bool.eq_false_or_eq_true r.placed with seen | unseen
  · rw [ends_placed whole hasPlace free, seen]
    constructor
    · rintro ⟨⟨⟩, -⟩
    · rintro ⟨fills, -⟩
      exact absurd (isPlaced seen p hasPlace) fills.fresh
  · refine ends_iff_of_later ?_ fun full _ => ends full
    rw [ends_placed whole hasPlace free, and_iff_right unseen]

end Reading

open Reading

/-- From a state on arguments are read to their end exactly if the texts that they give, after the one that is
waiting, fill their slots. -/
theorem Gives.ends_iff (clear : c.IsClear) (gives : Gives c plain args texts) (same : r.plain = plain)
    (whole : r.IsWhole) (isPlaced : r.IsPlaced c) :
    r.Ends c args given ↔ Fills r.given (r.waiting ++ texts) given ∧ together c given = none := by
  induction gives generalizing r with
  | nil =>
    rw [ends_nil, List.append_nil]
    constructor
    · rintro ⟨settled, settle, fits, rfl⟩
      obtain ⟨full, fills, rfl⟩ := (settle_eq_ok_iff whole).mp settle
      exact ⟨fills, fits⟩
    · rintro ⟨fills, fits⟩
      exact ⟨_, (settle_eq_ok_iff whole).mpr ⟨given, fills, rfl⟩, fits, rfl⟩
  | joined value known _ ih =>
    rw [List.append_cons]
    exact ends_iff_of_later (ends_joined whole clear known same) fun full fills =>
      ih same nofun (isPlaced.of_fills fills none)
  | @apart s value args texts known free _ ih =>
    refine ends_iff_of_later (ends_apart whole clear known same free) fun full fills => ih same nofun ?_
    rw [← List.append_nil r.waiting] at fills
    exact isPlaced.of_fills fills _
  | @ended args texts _ ih =>
    have later : Ends c { r with plain := true } args given ↔ Fills r.given (r.waiting ++ texts) given ∧
        together c given = none := ih rfl whole isPlaced
    rw [ends_cons, step_ended same, ← later]
    simp
  | placed hasPlace free _ ih =>
    exact ends_iff_of_placed whole isPlaced hasPlace (.inr free) fun full =>
      ih same nofun (isPlaced_of_place hasPlace full _)
  | after value hasPlace _ ih =>
    exact ends_iff_of_placed whole isPlaced hasPlace (.inl same) fun full =>
      ih same nofun (isPlaced_of_place hasPlace full _)

namespace Reading

/-- Where no setting waits, what is accepted next is part of what gives texts, if the same holds later and a
setting that waits then is given its value first. -/
theorem exists_gives_of_next (clear : c.IsClear) (whole : r.IsWhole) (next : r.step c arg = .ok r')
    (later : r'.IsWhole → ∃ texts, Gives c r'.plain args texts)
    (later_value : ∀ slot, r'.pending = some (slot, none) →
      ∃ value rest texts, args = value :: rest ∧ IsFree value ∧ Gives c false rest texts) :
    ∃ texts, Gives c r.plain (arg :: args) texts := by
  have placed (read : r.readPlain c arg = .ok r') :
      ∃ p, c.place = some p ∧ ∃ texts, Gives c r.plain args texts := by
    obtain ⟨p, hasPlace, -, settled, settle, rfl⟩ := readPlain_eq_ok_iff.mp read
    obtain ⟨full, -, rfl⟩ := (settle_eq_ok_iff whole).mp settle
    exact ⟨p, hasPlace, later nofun⟩
  cases isPlain : r.plain with
  | true =>
    rw [step, if_pos isPlain] at next
    obtain ⟨p, hasPlace, texts, gives⟩ := placed next
    rw [isPlain] at gives
    exact ⟨_, .after arg hasPlace gives⟩
  | false =>
    rw [isPlain] at placed
    obtain ⟨rfl, rfl⟩ | ⟨s, known, value, rfl, read⟩ | ⟨free, read⟩ := cases_of_step isPlain next
    · obtain ⟨texts, gives⟩ := later whole
      exact ⟨texts, .ended gives⟩
    · obtain ⟨settled, settle, takes⟩ := (readLong_setting clear known value).mp read
      obtain ⟨full, -, rfl⟩ := (settle_eq_ok_iff whole).mp settle
      cases value with
      | none =>
        obtain rfl := takes
        obtain ⟨value, rest, texts, rfl, free, gives⟩ := later_value _ rfl
        exact ⟨_, .apart known free gives⟩
      | some value =>
        obtain ⟨full, -, rfl⟩ := give_eq_ok_iff.mp takes
        obtain ⟨texts, gives⟩ : ∃ texts, Gives c r.plain args texts := later nofun
        rw [isPlain] at gives
        exact ⟨_, .joined value known gives⟩
    · rw [readValue_of_whole whole] at read
      obtain ⟨p, hasPlace, texts, gives⟩ := placed read
      exact ⟨_, .placed hasPlace free gives⟩

/-- Where a setting waits, what is accepted next is its value. Two dashes are accepted too, but leave it
waiting for what can no longer come. -/
theorem cases_of_waiting (clear : c.IsClear) (waits : r.pending = some (slot, none))
    (next : r.step c arg = .ok r') : r.plain = false ∧
      (r' = { r with plain := true } ∨ IsFree arg ∧ r' = { r with pending := some (slot, some arg) }) := by
  have unsettled (settled : Reading) : r.settle ≠ .ok settled := settle_ne_ok waits
  have settings : r.plain = false := by
    apply eq_false_of_ne_true
    intro isPlain
    rw [step, if_pos isPlain] at next
    obtain ⟨p, -, -, settled, settle, -⟩ := readPlain_eq_ok_iff.mp next
    exact unsettled settled settle
  refine ⟨settings, ?_⟩
  obtain ⟨-, ended⟩ | ⟨s, known, value, -, read⟩ | ⟨free, read⟩ := cases_of_step settings next
  · exact .inl ended
  · obtain ⟨settled, settle, -⟩ := (readLong_setting clear known value).mp read
    exact absurd settle (unsettled settled)
  · rw [readValue, waits] at read
    exact .inr ⟨free, (Except.ok.inj read).symm⟩

/-- What is read to its end are arguments that give texts; where a setting waits for its value, that comes
first. -/
theorem Ends.exists_gives (clear : c.IsClear) (ends : r.Ends c args given) :
    (r.IsWhole → ∃ texts, Gives c r.plain args texts) ∧
    (∀ slot, r.pending = some (slot, none) → r.plain = false ∧
      ∃ value rest texts, args = value :: rest ∧ IsFree value ∧ Gives c false rest texts) := by
  induction args generalizing r with
  | nil =>
    constructor
    · intro _
      exact ⟨[], .nil⟩
    · intro slot waits
      obtain ⟨settled, settle, -⟩ := ends_nil.mp ends
      exact absurd settle (settle_ne_ok waits)
  | cons arg args ih =>
    obtain ⟨r', next, ends⟩ := ends_cons.mp ends
    obtain ⟨later, later_value⟩ := ih ends
    constructor
    · intro whole
      exact exists_gives_of_next clear whole next later fun slot waits => (later_value slot waits).2
    · intro slot waits
      obtain ⟨isPlain, rfl | ⟨free, rfl⟩⟩ := cases_of_waiting clear waits next
      · exact absurd (later_value slot waits).1 (by simp)
      · obtain ⟨texts, gives⟩ : ∃ texts, Gives c r.plain args texts := later nofun
        rw [isPlain] at gives
        exact ⟨isPlain, arg, args, texts, rfl, free, gives⟩

end Reading

namespace Command

theorem read_eq_ok_iff_ends : c.read args = .ok given ↔ start.Ends c args given := by
  rw [read, Ends]
  cases start.steps c args <;> simp

/-- Accepted arguments give texts. -/
theorem exists_gives (clear : c.IsClear) (accepted : c.read args = .ok given) :
    ∃ texts, Gives c false args texts :=
  ((read_eq_ok_iff_ends.mp accepted).exists_gives clear).1 fun _ => nofun

end Command

/-- Arguments that give texts are accepted exactly if the texts fill their slots and the values go together. -/
theorem Gives.read_eq_ok_iff (clear : c.IsClear) (gives : Gives c false args texts) :
    c.read args = .ok given ↔ Fills [] texts given ∧ together c given = none :=
  Command.read_eq_ok_iff_ends.trans (gives.ends_iff clear rfl (fun _ => nofun) nofun)

/-- A reader accepts exactly the arguments that give texts of this kind. -/
theorem Command.read_eq_ok_iff (clear : c.IsClear) : c.read args = .ok given ↔
    ∃ texts, Gives c false args texts ∧ Fills [] texts given ∧ together c given = none := by
  constructor
  · intro accepted
    obtain ⟨texts, gives⟩ := exists_gives clear accepted
    exact ⟨texts, gives, (gives.read_eq_ok_iff clear).mp accepted⟩
  · rintro ⟨texts, gives, fills⟩
    exact (gives.read_eq_ok_iff clear).mpr fills

/-! ## What is given -/

/-- A value is found for a slot if arguments give it a text. -/
theorem lookup_ne_none_iff (clear : c.IsClear) (gives : Gives c false args texts) (fills : Fills [] texts given)
    (known : slot ∈ c.slots) : given.lookup slot.name ≠ none ↔ ∃ text, (slot, text) ∈ texts := by
  constructor
  · intro found
    obtain ⟨v, found⟩ := Option.ne_none_iff_exists'.mp found
    obtain ⟨slot', text, member, same⟩ := fills.mem_of_lookup found
    obtain rfl := clear.eq_of_name (gives.slots _ member) known same
    exact ⟨text, member⟩
  · rintro ⟨text, member⟩
    obtain ⟨v, -, found⟩ := fills.lookup_of_mem member
    rw [found]
    exact Option.some_ne_none v

theorem together_eq_none_iff (hasPlace : c.place = some p) :
    together c given = none ↔ (given.lookup p.instead ≠ none ↔ given.lookup p.name = none) := by
  rw [together, hasPlace]
  dsimp only
  cases given.lookup p.name with
  | none => cases given.lookup p.instead <;> simp
  | some v =>
    cases given.lookup p.instead with
    | none => simp
    | some w =>
      -- whichever of the two came first, there is a conflict
      dsimp only
      split <;> simp

/-- Of the argument without a name and the setting in its stead accepted arguments give one, and not both. -/
theorem Gives.instead_iff (clear : c.IsClear) (gives : Gives c false args texts)
    (accepted : c.read args = .ok given) (hasPlace : c.place = some p) (known : s ∈ c.settings)
    (instead : s.name = p.instead) :
    (∃ text, (.setting s, text) ∈ texts) ↔ ¬ ∃ text, (.place p, text) ∈ texts := by
  obtain ⟨fills, fits⟩ := (gives.read_eq_ok_iff clear).mp accepted
  have setting := lookup_ne_none_iff clear gives fills (c.setting_mem known)
  have place := lookup_ne_none_iff clear gives fills (c.place_mem hasPlace)
  rw [← setting, ← place, not_not]
  show given.lookup s.name ≠ none ↔ _
  rw [instead]
  exact (together_eq_none_iff hasPlace).mp fits

end GuideRig.Cli
