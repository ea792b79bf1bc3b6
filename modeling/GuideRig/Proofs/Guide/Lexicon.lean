/-
# GuideRig.Proofs.Guide.Lexicon -- which word a query names, byte for byte

The reader compares texts, and reading bytes as text is many-to-one: every ill-formed piece becomes the
same U+FFFD. No name in the lexicon holds that character, so that comparing texts is as good as comparing
bytes (`word?_eq`, `file?_lossy_iff`), and a page is found exactly for the bytes of its word.
-/

import Mathlib.Data.List.Nodup
import GuideRig.Guide.Lexicon
import GuideRig.Proofs.Query

namespace GuideRig.Lexicon

/-! ## The table -/

theorem nodup_words : (entries.map Prod.fst).Nodup := by
  decide

theorem nodup_files : (entries.map Prod.snd).Nodup := by
  decide

/-- Every word is some text that no ill-formed bytes read as. -/
theorem plain_of_mem {w f : String} (h : (w, f) ∈ entries) : '\uFFFD' ∉ w.toList := by
  have table : ∀ e ∈ entries, '\uFFFD' ∉ e.1.toList := by decide
  exact table _ h

/-- A word has the file that stands beside it. -/
theorem file?_eq_some_iff {w f : String} : file? w = some f ↔ (w, f) ∈ entries := by
  have distinct := nodup_words
  rw [file?]
  -- on the table: an earlier row with the word would hide the later one
  generalize entries = table at distinct
  induction table with
  | nil => simp
  | cons entry rest ih =>
    obtain ⟨word, file⟩ := entry
    obtain ⟨absent, later⟩ := List.nodup_cons.mp distinct
    rw [List.lookup_cons, List.mem_cons]
    by_cases same : w = word
    · subst same
      have once : (w, f) ∉ rest := fun again => absent (List.mem_map.mpr ⟨_, again, rfl⟩)
      simp [once, eq_comm]
    · rw [beq_eq_false_iff_ne.mpr same]
      simp [ih later, same]

/-- No file stands beside two words. -/
theorem word_unique {w w' f : String} (h : (w, f) ∈ entries) (h' : (w', f) ∈ entries) : w = w' :=
  congrArg Prod.fst (List.inj_on_of_nodup_map nodup_files h h' rfl)

/-! ## The word of a query -/

/-- The texts of a pair name the word exactly when its bytes do. -/
theorem named_iff (name value : Bytes) :
    (Utf8.lossy name == parameter && Utf8.lossy value != "") = true ↔
      value ≠ [] ∧ name = Utf8.encode parameter := by
  have plain : '\uFFFD' ∉ parameter.toList := by decide
  rw [Bool.and_eq_true, beq_iff_eq, bne_iff_ne, Utf8.lossy_eq_iff plain, ne_eq,
    Utf8.lossy_eq_empty_iff, and_comm]

/-- The word is the text of the bytes that the query gives the parameter. -/
theorem word?_eq (query : Bytes) :
    word? query = (Query.value? (Utf8.encode parameter) query).map Utf8.lossy := by
  rw [word?, Query.pairs, Query.bytePairs, Query.value?]
  -- on the pieces: both searches stop at the same one
  induction Query.cut query with
  | nil => rfl
  | cons piece pieces ih =>
    rw [List.findSome?_cons, Query.carried?]
    by_cases empty : piece = []
    · rw [if_neg fun carries => carries.1 empty, ← ih, List.filter_cons_of_neg]
      rw [empty]
      decide
    · rw [List.filter_cons_of_pos (by simpa using empty), List.map_cons, List.map_cons,
        List.find?_cons]
      by_cases named : Query.decode (Query.split piece).2 ≠ [] ∧
          Query.decode (Query.split piece).1 = Utf8.encode parameter
      · have found := (named_iff _ _).mpr named
        rw [if_pos ⟨empty, named⟩]
        simp only [found]
        rfl
      · have passed := Bool.eq_false_iff.mpr fun found => named ((named_iff _ _).mp found)
        rw [if_neg fun carries => named carries.2]
        simp only [passed]
        exact ih

/-- No bytes but its own lead to the file of a word. -/
theorem bind_file?_eq_some_iff {query : Bytes} {f : String} :
    (word? query).bind file? = some f ↔
      ∃ w, (w, f) ∈ entries ∧ Query.Gives (Utf8.encode parameter) query (Utf8.encode w) := by
  simp only [word?_eq, Option.bind_map, Option.bind_eq_some_iff, Query.gives_iff,
    Function.comp_apply, file?_eq_some_iff]
  constructor
  -- the word is listed, so its text can only have come from its own bytes
  · rintro ⟨value, given, listed⟩
    refine ⟨Utf8.lossy value, listed, ?_⟩
    rw [given, ← (Utf8.lossy_eq_iff (plain_of_mem listed)).mp rfl]
  · rintro ⟨w, listed, given⟩
    refine ⟨_, given, ?_⟩
    rw [Utf8.lossy_encode]
    exact listed

/-- Every spelling of a word is read as the word, also in the middle of a query that names none before. -/
theorem word?_of_spells {before : Option Bytes} (after : Option Bytes) {w : String} {k e : Bytes}
    (some_word : w ≠ "") (unnamed : ∀ query ∈ before, word? query = none)
    (name : Query.Spells parameter.toList k) (word : Query.Spells w.toList e) :
    word? (Query.around before (k ++ Ascii.byte '=' :: e) after) = some w := by
  have earlier : ∀ query ∈ before, Query.value? (Utf8.encode parameter) query = none := by
    intro query member
    have none_word := unnamed query member
    rw [word?_eq, Option.map_eq_none_iff] at none_word
    exact none_word
  have bare : Ascii.byte '&' ∉ k ++ Ascii.byte '=' :: e := by
    rw [List.mem_append, List.mem_cons]
    rintro (first | sign | later)
    · exact (name.mem (.inl rfl) first).1 rfl
    · cases sign
    · exact (word.mem (.inl rfl) later).1 rfl
  have carries := Query.carried?_of_spells name (by decide) word some_word
  rw [word?_eq, Query.value?_around earlier bare carries after, Option.map_some, Utf8.lossy_encode]

/-! ## Several queries in one -/

/-- Of two queries in one the second is only asked if the first names no word. -/
theorem word?_append (before rest : Bytes) :
    word? (before ++ Ascii.byte '&' :: rest) = (word? before).or (word? rest) := by
  rw [word?_eq, word?_eq, word?_eq, Query.value?_append, Option.map_or]

theorem word?_intercalate (queries : List Bytes) :
    word? ([Ascii.byte '&'].intercalate queries) = queries.findSome? word? := by
  induction queries with
  | nil => rfl
  | cons query rest ih =>
    cases rest with
    | nil =>
      rw [List.intercalate_singleton, List.findSome?_singleton]
    | cons next rest =>
      have first : (query :: next :: rest).findSome? word? =
          (word? query).or ((next :: rest).findSome? word?) := by
        rw [List.findSome?_cons]
        cases word? query <;> rfl
      rw [List.intercalate_cons_cons, List.append_assoc, List.singleton_append, word?_append, ih, first]

/-- A word is the text of some bytes that the query gives the parameter, and of no others. -/
theorem word?_eq_some_iff {query : Bytes} {w : String} : word? query = some w ↔
    ∃ value, Query.Gives (Utf8.encode parameter) query value ∧ Utf8.lossy value = w := by
  rw [word?_eq, Option.map_eq_some_iff]
  simp only [Query.gives_iff]

/-- The text of bytes that are a value is not empty, be they text or not. -/
theorem ne_empty_of_word? {query : Bytes} {w : String} (named : word? query = some w) : w ≠ "" := by
  obtain ⟨value, ⟨_, _, _, -, -, -, some_byte, -⟩, rfl⟩ := word?_eq_some_iff.mp named
  exact mt Utf8.lossy_eq_empty_iff.mp some_byte

/-- The first word of a query is its word, for all bytes that a query can be made of. So two queries with
an `&` sign between them name the word of the first, if that names one, and else the word of the second;
any number of them name the word of the first that names one. In a single query it is the first piece with
the parameter and a value that counts: no piece before it that has none of the two, and nothing after it,
makes a difference. No word is empty. -/
theorem word?_first (a b query : Bytes) (queries : List Bytes) (w : String) :
    word? (a ++ Ascii.byte '&' :: b) = (word? a).or (word? b) ∧
    word? ([Ascii.byte '&'].intercalate queries) = queries.findSome? word? ∧
    (word? query = some w ↔ ∃ before piece after value,
      Query.IsCut query (before ++ piece :: after) ∧
      (∀ p ∈ before, ∀ v, ¬ Query.Carries (Utf8.encode "slovo") p v) ∧
      Query.Carries (Utf8.encode "slovo") piece value ∧ Utf8.lossy value = w) ∧
    word? query ≠ some "" := by
  refine ⟨word?_append a b, word?_intercalate queries, ?_, fun named => ne_empty_of_word? named rfl⟩
  rw [word?_eq_some_iff]
  constructor
  · rintro ⟨value, ⟨before, piece, after, whole, unnamed, carries⟩, text⟩
    exact ⟨before, piece, after, value, whole, unnamed, carries, text⟩
  · rintro ⟨before, piece, after, value, whole, unnamed, carries, text⟩
    exact ⟨value, ⟨before, piece, after, whole, unnamed, carries⟩, text⟩

end GuideRig.Lexicon
