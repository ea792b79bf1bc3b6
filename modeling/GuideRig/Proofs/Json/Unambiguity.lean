/-
# GuideRig.Proofs.Json.Unambiguity -- one way to tell a JSON text apart

A list has one row of items and an object one row of keys and values (`IsList.unique`,
`IsObject.unique`). A scan that counts open brackets and knows a string from the outside stops at no comma
or colon inside of a value (`IsValue.whole`), and so cuts a text where the grammar does; the spaces around
a value do not count, for no value begins or ends with one (`IsValue.tight`).
-/

import GuideRig.Proofs.Json.Grammar
import GuideRig.Proofs.Text.Decimal
import GuideRig.Proofs.Text.Percent

namespace GuideRig.Json

open Ascii

/-! ## The scan -/

/-- Where a scan stands: how many brackets are open, and whether it is in a string. -/
inductive Place where
  | outside (depth : Nat)
  | inside (depth : Nat)
  /-- After a backslash in a string. -/
  | escaped (depth : Nat)
  deriving DecidableEq

/-- A byte that stands between two parts. -/
def IsMark (b : UInt8) : Prop := b = byte ',' ∨ b = byte ':'

theorem IsMark.ne {mark b : UInt8} (h : IsMark mark) (comma : b ≠ byte ',') (colon : b ≠ byte ':') :
    b ≠ mark := by
  rcases h with rfl | rfl
  · exact comma
  · exact colon

namespace Place

/-- Where the scan stands after a byte. -/
def next : Place → UInt8 → Place
  | outside depth, b =>
    if b = byte '"' then inside depth
    else if b = byte '[' ∨ b = byte '\x7b' then outside (depth + 1)
    else if b = byte ']' ∨ b = byte '\x7d' then outside (depth - 1)
    else outside depth
  | inside depth, b =>
    if b = byte '"' then outside depth else if b = byte '\\' then escaped depth else inside depth
  | escaped depth, _ => inside depth

/-- The bytes up to the first mark that stands in no bracket and no string, and those from it on. -/
def cut (mark : UInt8) : Place → Bytes → Bytes × Bytes
  | _, [] => ([], [])
  | place, b :: rest =>
    if place = outside 0 ∧ b = mark then ([], b :: rest)
    else (b :: (cut mark (place.next b) rest).1, (cut mark (place.next b) rest).2)

/-- The scan goes over bytes without a stop, from one place to another. -/
def Passes (mark : UInt8) (place : Place) (s : Bytes) (place' : Place) : Prop :=
  ∀ rest, place.cut mark (s ++ rest) = (s ++ (place'.cut mark rest).1, (place'.cut mark rest).2)

variable {mark : UInt8} {p q t : Place}

theorem Passes.nil : Passes mark p [] p := fun _ => rfl

theorem Passes.append {s s' : Bytes} (h : Passes mark p s q) (h' : Passes mark q s' t) :
    Passes mark p (s ++ s') t := by
  intro rest
  rw [List.append_assoc, h, h', List.append_assoc]

theorem Passes.cons {b : UInt8} {s : Bytes} (goes : p = outside 0 → b ≠ mark)
    (h : Passes mark (p.next b) s q) : Passes mark p (b :: s) q := by
  intro rest
  rw [List.cons_append, cut, if_neg fun ⟨stops, isMark⟩ => goes stops isMark, h]
  rfl

/-- Bytes that leave the scan where it is. -/
theorem Passes.stay {s : Bytes} (h : ∀ b ∈ s, (p = outside 0 → b ≠ mark) ∧ p.next b = p) :
    Passes mark p s p := by
  induction s with
  | nil => exact Passes.nil
  | cons b s ih =>
    obtain ⟨⟨goes, same⟩, later⟩ := List.forall_mem_cons.mp h
    apply Passes.cons goes
    rw [same]
    exact ih later

end Place

open Place

/-! ## Parts that the scan goes over -/

/-- The scan goes over a text wherever it is outside of strings. -/
def Whole (mark : UInt8) (s : Bytes) : Prop :=
  ∀ depth, Passes mark (.outside depth) s (.outside depth)

/-- The scan goes over a text inside of brackets. -/
def Within (mark : UInt8) (s : Bytes) : Prop :=
  ∀ depth, Passes mark (.outside (depth + 1)) s (.outside (depth + 1))

section Scan

variable {mark : UInt8} {s before after : Bytes}

theorem Whole.within (h : Whole mark s) : Within mark s := fun depth => h (depth + 1)

theorem Whole.cut_end (h : Whole mark s) : (Place.outside 0).cut mark s = (s, []) := by
  have pass := h 0 []
  rw [List.append_nil] at pass
  rw [pass, cut, List.append_nil]

theorem Whole.cut_mark (h : Whole mark s) (rest : Bytes) :
    (Place.outside 0).cut mark (s ++ mark :: rest) = (s, mark :: rest) := by
  rw [h 0, cut, if_pos ⟨rfl, rfl⟩, List.append_nil]

/-- A byte of a word or number: it opens and closes nothing and stands between no two parts. -/
def isBare (b : UInt8) : Bool :=
  ['"', '[', ']', '\x7b', '\x7d', ',', ':', ' ', '\t', '\n', '\r'].all fun c => b != byte c

theorem whole_of_bare (isMark : IsMark mark) (h : s.all isBare = true) : Whole mark s := by
  intro depth
  apply Passes.stay
  intro b member
  have bare := List.all_eq_true.mp h b member
  simp only [isBare, List.all_cons, Bool.and_eq_true, bne_iff_ne] at bare
  obtain ⟨quote, list, listEnd, object, objectEnd, comma, colon, -⟩ := bare
  refine ⟨fun _ => isMark.ne comma colon, ?_⟩
  simp only [Place.next, quote, list, listEnd, object, objectEnd, or_self, if_false]

theorem whole_of_gap (isMark : IsMark mark) (h : IsGap s) : Whole mark s := by
  intro depth
  apply Passes.stay
  intro b member
  rcases h b member with rfl | rfl | rfl | rfl
  all_goals exact ⟨fun _ => isMark.ne (by decide) (by decide), rfl⟩

/-- Spaces around a text change nothing for the scan. -/
theorem Whole.spaced (isMark : IsMark mark) (h : Whole mark s) (gap : IsGap before)
    (gap' : IsGap after) : Whole mark (before ++ s ++ after) := by
  intro depth
  have front := (whole_of_gap isMark gap depth).append (h depth)
  exact front.append (whole_of_gap isMark gap' depth)

end Scan

/-! ## Numbers, words and strings -/

theorem isBare_of_isDigit {d : UInt8} (h : isDigit d = true) : isBare d = true := by
  have apart {c : Char} : isDigit (byte c) = false → d ≠ byte c := ne_of_isDigit h
  simp only [isBare, List.all_cons, List.all_nil, Bool.and_eq_true, bne_iff_ne]
  exact ⟨apart rfl, apart rfl, apart rfl, apart rfl, apart rfl, apart rfl, apart rfl, apart rfl,
    apart rfl, apart rfl, apart rfl, trivial⟩

theorem IsDigits.bare {s : Bytes} (h : IsDigits s) : s.all isBare = true :=
  List.all_eq_true.mpr fun d member => isBare_of_isDigit (h.2 d member)

theorem IsFraction.bare {s : Bytes} (h : IsFraction s) : s.all isBare = true := by
  rcases h with rfl | ⟨ds, rfl, digits⟩
  · rfl
  · rw [List.all_cons, digits.bare]
    rfl

theorem IsExponent.bare {s : Bytes} (h : IsExponent s) : s.all isBare = true := by
  rcases h with rfl | ⟨letter, sign, ds, rfl, isLetter, isSign, digits⟩
  · rfl
  · have bare : isBare letter = true := by
      rcases isLetter with rfl | rfl <;> rfl
    have signs : sign.all isBare = true := by
      rcases isSign with rfl | rfl | rfl <;> rfl
    rw [List.cons_append, List.all_cons, List.all_append, bare, signs, digits.bare]
    rfl

theorem IsNumber.bare {s : Bytes} (h : IsNumber s) : s.all isBare = true := by
  obtain ⟨isSign, isWhole, isFraction, isExponent⟩ := h
  simp only [List.all_append, isWhole.1.bare, isFraction.bare, isExponent.bare, Bool.and_true]
  rcases isSign with rfl | rfl <;> rfl

theorem IsNumber.ne_nil {s : Bytes} (h : IsNumber s) : s ≠ [] := by
  obtain ⟨-, isWhole, -, -⟩ := h
  simp only [ne_eq, List.append_eq_nil_iff, isWhole.1.1, and_false, false_and, not_false_eq_true]

/-- In a string the scan stays until a quote or a backslash. -/
theorem passes_inside {mark : UInt8} {s : Bytes} (h : ∀ b ∈ s, b ≠ byte '"' ∧ b ≠ byte '\\')
    (depth : Nat) : Passes mark (.inside depth) s (.inside depth) := by
  apply Passes.stay
  intro b member
  obtain ⟨quote, slash⟩ := h b member
  exact ⟨nofun, by simp only [Place.next, quote, slash, if_false]⟩

/-- The characters of a string leave the scan inside of it. -/
theorem IsContent.passes {mark : UInt8} {s : Bytes} (h : IsContent s) (depth : Nat) :
    Passes mark (.inside depth) s (.inside depth) := by
  induction h with
  | nil => exact .nil
  | @plain c s quote slash visible content ih =>
    refine (passes_inside ?_ depth).append ih
    intro b member
    constructor
    · rintro rfl
      exact quote (eq_of_byte_mem_ofChar (by decide) member)
    · rintro rfl
      exact slash (eq_of_byte_mem_ofChar (by decide) member)
  | letter isLetter content ih => exact .cons nofun (.cons nofun ih)
  | @number ds s four digits content ih =>
    have taken : Passes mark (.inside depth) ds (.inside depth) := by
      apply passes_inside
      intro b member
      have digit := digits b member
      constructor
      · rintro rfl
        exact absurd digit (by decide)
      · rintro rfl
        exact absurd digit (by decide)
    exact .cons nofun (.cons nofun (taken.append ih))

/-- The scan goes over a string. -/
theorem IsString.whole {mark : UInt8} (isMark : IsMark mark) {s : Bytes} (h : IsString s) :
    Whole mark s := by
  intro depth
  obtain ⟨content⟩ := h
  have opens : byte '"' ≠ mark := isMark.ne (by decide) (by decide)
  exact .cons (fun _ => opens) ((content.passes depth).append (.cons nofun .nil))

/-! ## Lists, objects and values -/

section Parts

variable {mark : UInt8} {parts : List Bytes} {body s : Bytes}

theorem IsRow.within (isMark : IsMark mark) (h : IsRow parts body)
    (inner : ∀ part ∈ parts, Within mark part) : Within mark body := by
  intro depth
  have space {gap : Bytes} (h : IsGap gap) := whole_of_gap isMark h (depth + 1)
  induction h with
  | @last before part after gap gap' =>
    exact ((space gap).append (inner part (List.mem_singleton_self part) depth)).append (space gap')
  | @more before part after rest parts gap gap' row ih =>
    obtain ⟨first, later⟩ := List.forall_mem_cons.mp inner
    exact (((space gap).append (first depth)).append (space gap')).append (.cons nofun (ih later))

/-- A pair of brackets that the scan counts. -/
def IsBrackets (opening closing : UInt8) : Prop :=
  (opening = byte '[' ∧ closing = byte ']') ∨ (opening = byte '\x7b' ∧ closing = byte '\x7d')

theorem IsEnclosed.whole {opening closing : UInt8} (brackets : IsBrackets opening closing)
    (isMark : IsMark mark) (h : IsEnclosed opening closing parts s)
    (inner : ∀ part ∈ parts, Within mark part) : Whole mark s := by
  have around {body : Bytes} (pass : Within mark body) : Whole mark (opening :: body ++ [closing]) := by
    intro depth
    rcases brackets with ⟨rfl, rfl⟩ | ⟨rfl, rfl⟩
    all_goals
      refine .cons (fun _ => isMark.ne ?_ ?_) ((pass depth).append (.cons nofun .nil)) <;> decide
  cases h with
  | empty gap => exact around (whole_of_gap isMark gap).within
  | row row => exact around (row.within isMark inner)

end Parts

section Members

variable {mark : UInt8} {member : Bytes × Bytes} {part : Bytes}

/-- The scan goes over a member wherever it does not stop at the colon. -/
theorem IsMember.passes (isMark : IsMark mark) (h : IsMember member part)
    (key : Whole mark member.1) (value : Whole mark member.2) {depth : Nat}
    (goes : Place.outside depth = .outside 0 → byte ':' ≠ mark) :
    Passes mark (.outside depth) part (.outside depth) := by
  obtain ⟨gap, gap'⟩ := h
  have space {gap : Bytes} (h : IsGap gap) := whole_of_gap isMark h depth
  exact ((key depth).append (space gap)).append (.cons goes ((space gap').append (value depth)))

theorem IsMember.within (isMark : IsMark mark) (h : IsMember member part)
    (key : Whole mark member.1) (value : Whole mark member.2) : Within mark part := by
  intro depth
  exact h.passes isMark key value nofun

theorem IsMember.whole (h : IsMember member part) (key : Whole (byte ',') member.1)
    (value : Whole (byte ',') member.2) : Whole (byte ',') part := by
  intro depth
  have other : byte ':' ≠ byte ',' := by decide
  exact h.passes (.inl rfl) key value fun _ => other

/-- Each part of an object is one of its members. -/
theorem exists_member {members : List (Bytes × Bytes)} {parts : List Bytes}
    (h : List.Forall₂ IsMember members parts) (isPart : part ∈ parts) :
    ∃ m ∈ members, IsMember m part := by
  induction h with
  | nil => exact absurd isPart List.not_mem_nil
  | @cons m p members parts first later ih =>
    rcases List.mem_cons.mp isPart with rfl | isPart
    · exact ⟨m, List.mem_cons_self, first⟩
    · obtain ⟨m', isMember, same⟩ := ih isPart
      exact ⟨m', List.mem_cons_of_mem m isMember, same⟩

end Members

/-- The scan goes over a value. -/
theorem IsValue.whole {mark : UInt8} (isMark : IsMark mark) {s : Bytes} (h : IsValue s) :
    Whole mark s := by
  induction h with
  | null => exact whole_of_bare isMark rfl
  | @flag b => cases b <;> exact whole_of_bare isMark rfl
  | number number => exact whole_of_bare isMark number.bare
  | string string => exact string.whole isMark
  | list enclosed _ ih =>
    exact enclosed.whole (.inl ⟨rfl, rfl⟩) isMark fun item member => (ih item member).within
  | @object members parts s enclosed isMembers keys _ ih =>
    refine enclosed.whole (.inr ⟨rfl, rfl⟩) isMark ?_
    intro part isPart
    obtain ⟨m, member, form⟩ := exists_member isMembers isPart
    exact form.within isMark ((keys m member).whole isMark) (ih m member)

/-! ## No space at either end -/

/-- Neither the first nor the last byte is a space. -/
def IsTight (s : Bytes) : Prop :=
  (∃ a t, s = a :: t ∧ ¬ IsSpace a) ∧ ∃ t z, s = t ++ [z] ∧ ¬ IsSpace z

/-- The bytes from the first that is no space on. -/
def dropGap (s : Bytes) : Bytes := s.dropWhile fun b => decide (IsSpace b)

theorem dropGap_append {gap s : Bytes} {a : UInt8} (h : IsGap gap) (other : ¬ IsSpace a) :
    dropGap (gap ++ a :: s) = a :: s := by
  rw [dropGap, List.dropWhile_append_of_pos fun b member => decide_eq_true (h b member),
    List.dropWhile_cons_of_neg (by simpa using other)]

theorem IsGap.reverse {gap : Bytes} (h : IsGap gap) : IsGap gap.reverse := by
  intro b member
  exact h b (List.mem_reverse.mp member)

/-- Spaces around a text do not hide where it begins and ends. -/
theorem dropGap_spaced {before s after : Bytes} (gap : IsGap before) (gap' : IsGap after)
    (tight : IsTight s) : dropGap (dropGap (before ++ s ++ after)).reverse = s.reverse := by
  obtain ⟨⟨a, t, begins, first⟩, t', z, ends, last⟩ := tight
  have front : dropGap (before ++ s ++ after) = s ++ after := by
    rw [List.append_assoc, begins, List.cons_append, dropGap_append gap first]
  rw [front, ends, List.reverse_append, List.reverse_append, List.reverse_singleton,
    List.singleton_append, dropGap_append gap'.reverse last]

theorem IsTight.eq {before s after before' s' after' : Bytes} (gaps : IsGap before ∧ IsGap after)
    (gaps' : IsGap before' ∧ IsGap after') (tight : IsTight s) (tight' : IsTight s')
    (h : before ++ s ++ after = before' ++ s' ++ after') : s = s' := by
  rw [← List.reverse_inj, ← dropGap_spaced gaps.1 gaps.2 tight, h,
    dropGap_spaced gaps'.1 gaps'.2 tight']

/-- A text between two bytes that are no spaces. -/
theorem tight_of_ends {a z : UInt8} {s : Bytes} (first : ¬ IsSpace a) (last : ¬ IsSpace z) :
    IsTight (a :: s ++ [z]) :=
  ⟨⟨a, s ++ [z], rfl, first⟩, a :: s, z, rfl, last⟩

theorem not_isSpace_of_isBare {b : UInt8} (h : isBare b = true) : ¬ IsSpace b := by
  rintro (rfl | rfl | rfl | rfl) <;> cases h

theorem tight_of_bare {s : Bytes} (ne : s ≠ []) (h : s.all isBare = true) : IsTight s := by
  have visible (b : UInt8) (member : b ∈ s) : ¬ IsSpace b :=
    not_isSpace_of_isBare (List.all_eq_true.mp h b member)
  constructor
  · obtain ⟨a, t, rfl⟩ := List.exists_cons_of_ne_nil ne
    exact ⟨a, t, rfl, visible a List.mem_cons_self⟩
  · refine ⟨s.dropLast, s.getLast ne, (List.dropLast_concat_getLast ne).symm, ?_⟩
    exact visible _ (List.getLast_mem ne)

theorem IsString.tight {s : Bytes} (h : IsString s) : IsTight s := by
  obtain ⟨-⟩ := h
  exact tight_of_ends (by decide) (by decide)

theorem IsEnclosed.tight {opening closing : UInt8} {parts : List Bytes} {s : Bytes}
    (brackets : IsBrackets opening closing) (h : IsEnclosed opening closing parts s) : IsTight s := by
  rcases brackets with ⟨rfl, rfl⟩ | ⟨rfl, rfl⟩ <;> obtain - | - := h
  all_goals exact tight_of_ends (by decide) (by decide)

theorem IsValue.tight {s : Bytes} (h : IsValue s) : IsTight s := by
  cases h with
  | null => exact tight_of_bare nofun rfl
  | @flag b => cases b <;> exact tight_of_bare nofun rfl
  | number number => exact tight_of_bare number.ne_nil number.bare
  | string string => exact string.tight
  | list enclosed _ => exact enclosed.tight (.inl ⟨rfl, rfl⟩)
  | object enclosed _ _ _ => exact enclosed.tight (.inr ⟨rfl, rfl⟩)

/-- A member begins as its key does and ends as its value does. -/
theorem IsMember.tight {member : Bytes × Bytes} {part : Bytes} (h : IsMember member part)
    (key : IsTight member.1) (value : IsTight member.2) : IsTight part := by
  obtain @⟨key, before, after, value, gap, gap'⟩ := h
  obtain ⟨⟨a, t, rfl, first⟩, -⟩ := key
  obtain ⟨-, t', z, rfl, last⟩ := value
  refine ⟨⟨a, _, rfl, first⟩, a :: t ++ before ++ byte ':' :: (after ++ t'), z, ?_, last⟩
  simp only [List.append_assoc, List.cons_append]

/-! ## One way to tell a text apart -/

/-- Two rows of the same text have the same parts. -/
theorem IsRow.unique {parts parts' : List Bytes} {body body' : Bytes} (h : IsRow parts body)
    (h' : IsRow parts' body') (whole : ∀ part ∈ parts, Whole (byte ',') part ∧ IsTight part)
    (whole' : ∀ part ∈ parts', Whole (byte ',') part ∧ IsTight part) (same : body = body') :
    parts = parts' := by
  have isMark : IsMark (byte ',') := .inl rfl
  induction h generalizing parts' body' with
  | last gap gap₁ =>
    obtain ⟨pass, tight⟩ := whole _ List.mem_cons_self
    have ends := (pass.spaced isMark gap gap₁).cut_end
    rw [same] at ends
    cases h' with
    | last gap' gap₁' =>
      have part := tight.eq ⟨gap, gap₁⟩ ⟨gap', gap₁'⟩ (whole' _ List.mem_cons_self).2 same
      rw [part]
    | more gap' gap₁' _ =>
      obtain ⟨pass', -⟩ := whole' _ List.mem_cons_self
      rw [(pass'.spaced isMark gap' gap₁').cut_mark] at ends
      cases congrArg Prod.snd ends
  | @more before part after rest parts gap gap₁ row ih =>
    obtain ⟨⟨pass, tight⟩, later⟩ := List.forall_mem_cons.mp whole
    have stops := (pass.spaced isMark gap gap₁).cut_mark rest
    rw [same] at stops
    cases h' with
    | last gap' gap₁' =>
      obtain ⟨pass', -⟩ := whole' _ List.mem_cons_self
      rw [(pass'.spaced isMark gap' gap₁').cut_end] at stops
      cases congrArg Prod.snd stops
    | more gap' gap₁' row' =>
      obtain ⟨⟨pass', tight'⟩, later'⟩ := List.forall_mem_cons.mp whole'
      rw [(pass'.spaced isMark gap' gap₁').cut_mark] at stops
      obtain ⟨front, back⟩ := Prod.mk.inj stops
      rw [tight.eq ⟨gap, gap₁⟩ ⟨gap', gap₁'⟩ tight' front.symm,
        ih row' later later' (List.cons.inj back).2.symm]

/-- A row with a part in it is not empty space. -/
theorem IsRow.not_isGap {parts : List Bytes} {body : Bytes} (h : IsRow parts body)
    (tight : ∀ part ∈ parts, IsTight part) : ¬ IsGap body := by
  intro gap
  cases h with
  | last _ _ =>
    obtain ⟨⟨a, t, rfl, other⟩, -⟩ := tight _ List.mem_cons_self
    exact other (gap a (by simp))
  | more _ _ _ =>
    obtain ⟨⟨a, t, rfl, other⟩, -⟩ := tight _ List.mem_cons_self
    exact other (gap a (by simp))

/-- A pair of brackets has one list of parts. -/
theorem IsEnclosed.unique {opening closing : UInt8} {parts parts' : List Bytes} {s : Bytes}
    (h : IsEnclosed opening closing parts s) (h' : IsEnclosed opening closing parts' s)
    (whole : ∀ part ∈ parts, Whole (byte ',') part ∧ IsTight part)
    (whole' : ∀ part ∈ parts', Whole (byte ',') part ∧ IsTight part) : parts = parts' := by
  have inner {body body' : Bytes} (same : opening :: body ++ [closing] = opening :: body' ++ [closing]) :
      body = body' :=
    (List.cons.inj (List.append_cancel_right same)).2
  cases h with
  | empty gap =>
    generalize same : opening :: _ ++ [closing] = s at h'
    cases h' with
    | empty _ => rfl
    | row row' =>
      rw [inner same] at gap
      exact absurd gap (row'.not_isGap fun part member => (whole' part member).2)
  | row row =>
    generalize same : opening :: _ ++ [closing] = s at h'
    cases h' with
    | empty gap' =>
      rw [← inner same] at gap'
      exact absurd gap' (row.not_isGap fun part member => (whole part member).2)
    | row row' => exact row.unique row' whole whole' (inner same)

/-- Two members of the same text have the same key and the same value. -/
theorem IsMember.unique {m m' : Bytes × Bytes} {part : Bytes} (h : IsMember m part)
    (h' : IsMember m' part) (key : IsString m.1) (key' : IsString m'.1) (value : IsValue m.2)
    (value' : IsValue m'.2) : m = m' := by
  have isMark : IsMark (byte ':') := .inr rfl
  have none : IsGap [] := List.forall_mem_nil _
  obtain @⟨name, before, after, content, gap, gap₁⟩ := h
  generalize same : name ++ before ++ byte ':' :: (after ++ content) = part at h'
  obtain @⟨name', before', after', content', gap', gap₁'⟩ := h'
  have stops := ((key.whole isMark).spaced isMark none gap).cut_mark (after ++ content)
  have stops' := ((key'.whole isMark).spaced isMark none gap').cut_mark (after' ++ content')
  rw [List.nil_append, same] at stops
  rw [List.nil_append, stops] at stops'
  obtain ⟨front, back⟩ := Prod.mk.inj stops'
  have sameKey : name = name' := key.tight.eq ⟨none, gap⟩ ⟨none, gap'⟩ key'.tight front
  have sameValue : content = content' := by
    refine value.tight.eq ⟨gap₁, none⟩ ⟨gap₁', none⟩ value'.tight ?_
    rw [List.append_nil, List.append_nil]
    exact (List.cons.inj back).2
  rw [sameKey, sameValue]

theorem IsList.parts {s : Bytes} {items : List Bytes} (h : IsList s items) :
    ∀ item ∈ items, Whole (byte ',') item ∧ IsTight item := by
  intro item member
  have value := h.2 item member
  exact ⟨value.whole (.inl rfl), value.tight⟩

/-- A text is a list of one row of items only. -/
theorem IsList.unique {s : Bytes} {items items' : List Bytes} (h : IsList s items)
    (h' : IsList s items') : items = items' := h.1.unique h'.1 h.parts h'.parts

/-- The parts of an object are cut by its commas, and no part ends in a space. -/
theorem IsObject.parts {s : Bytes} {members : List (Bytes × Bytes)} (h : IsObject s members) :
    ∃ parts, IsEnclosed (byte '\x7b') (byte '\x7d') parts s ∧ List.Forall₂ IsMember members parts ∧
      ∀ part ∈ parts, Whole (byte ',') part ∧ IsTight part := by
  obtain ⟨parts, enclosed, isMembers, well⟩ := h
  refine ⟨parts, enclosed, isMembers, ?_⟩
  intro part isPart
  obtain ⟨m, member, form⟩ := exists_member isMembers isPart
  obtain ⟨key, value⟩ := well m member
  exact ⟨form.whole (key.whole (.inl rfl)) (value.whole (.inl rfl)), form.tight key.tight value.tight⟩

/-- The same parts are the same members. -/
theorem members_unique {members members' : List (Bytes × Bytes)} {parts : List Bytes}
    (h : List.Forall₂ IsMember members parts) (h' : List.Forall₂ IsMember members' parts)
    (well : ∀ m ∈ members, IsString m.1 ∧ IsValue m.2)
    (well' : ∀ m ∈ members', IsString m.1 ∧ IsValue m.2) : members = members' := by
  induction h generalizing members' with
  | nil =>
    cases h'
    rfl
  | cons first later ih =>
    obtain - | ⟨first', later'⟩ := h'
    obtain ⟨⟨key, value⟩, well⟩ := List.forall_mem_cons.mp well
    obtain ⟨⟨key', value'⟩, well'⟩ := List.forall_mem_cons.mp well'
    rw [first.unique first' key key' value value', ih later' well well']

/-- A text is an object of one row of members only. -/
theorem IsObject.unique {s : Bytes} {members members' : List (Bytes × Bytes)} (h : IsObject s members)
    (h' : IsObject s members') : members = members' := by
  obtain ⟨parts, enclosed, isMembers, whole⟩ := h.parts
  obtain ⟨parts', enclosed', isMembers', whole'⟩ := h'.parts
  obtain ⟨-, -, -, well⟩ := h
  obtain ⟨-, -, -, well'⟩ := h'
  obtain rfl := enclosed.unique enclosed' whole whole'
  exact members_unique isMembers isMembers' well well'

end GuideRig.Json
