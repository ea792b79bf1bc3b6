/-
# GuideRig.Proofs.Url.Path -- what a path of the web is made of, and where its last segment begins

A path is put together from escaped segments, and what is put together adds no bytes but slashes and the
colon of a drive (`forall_mem_walk`). So it holds only bytes that stand for themselves in a path
(`keptInPath_of_mem_path`), and the first question mark after it begins the query. A relative reference
keeps of a path what stands up to its last slash (`IsFolder`), and nothing of what comes after it.
-/

import GuideRig.Proofs.Url.Read

namespace GuideRig

open Ascii

namespace Url

/-! ## Bytes of a path -/

/-- Going up leaves a part of a path away. -/
theorem parent_suffix (scheme path : Bytes) : parent scheme path <:+ path := by
  have up : ∀ path : Bytes,
      (if isFile scheme && isDrive (lastOf path) then path else path.dropWhile (· != byte '/')) <:+
        path := by
    intro path
    split
    · exact List.suffix_rfl
    · exact List.dropWhile_suffix _
  unfold parent
  cases path with
  | nil => exact up []
  | cons b rest =>
    dsimp only
    split
    · exact (up rest).trans (List.suffix_cons b rest)
    · exact up (b :: rest)

section Walk

variable {P : UInt8 → Prop} (signs : ∀ b ∈ bytes "/:", P b) {scheme path : Bytes}

include signs

theorem forall_mem_closed (old : ∀ b ∈ path, P b) : ∀ b ∈ closed path, P b := by
  unfold closed
  split
  · exact old
  · exact List.forall_mem_cons.mpr ⟨signs _ (by decide), old⟩

/-- A segment adds its own bytes to a path, a slash, or the colon of a drive. -/
theorem forall_mem_append {s : Bytes} (old : ∀ b ∈ path, P b) (new : ∀ b ∈ s, P b) (slash : Bool) :
    ∀ b ∈ append scheme path s slash, P b := by
  have up : ∀ b ∈ parent scheme path, P b := fun b hb =>
    old b ((parent_suffix scheme path).mem hb)
  have drive : ∀ c : Bool, ∀ b ∈ (if c = true then s.take 1 ++ [byte ':'] else s), P b := by
    intro c b hb
    cases c with
    | false => exact new b hb
    | true =>
      rcases List.mem_append.mp hb with letter | colon
      · exact new b (List.mem_of_mem_take letter)
      · rw [List.mem_singleton.mp colon]
        exact signs _ (by decide)
  unfold append
  split
  · split
    · exact forall_mem_closed signs up
    · exact up
  split
  · exact forall_mem_closed signs old
  · intro b hb
    rcases List.mem_append.mp hb with front | back
    · rcases List.mem_append.mp front with after | segment
      · cases slash with
        | false => cases after
        | true =>
          rw [List.mem_singleton.mp after]
          exact signs _ (by decide)
      · exact drive _ b (List.mem_reverse.mp segment)
    · exact old b back

theorem forall_mem_walk {pieces : List Bytes} (old : ∀ b ∈ path, P b)
    (new : ∀ s ∈ pieces, ∀ b ∈ s, P b) : ∀ b ∈ walk scheme path pieces, P b := by
  induction pieces generalizing path with
  | nil => exact old
  | cons s rest ih =>
    have first : ∀ slash, ∀ b ∈ append scheme path s slash, P b :=
      forall_mem_append signs old (new s List.mem_cons_self)
    cases rest with
    | nil => exact first false
    | cons t rest =>
      rw [walk]
      · exact ih (first true) fun s hs => new s (List.mem_cons_of_mem _ hs)
      · simp

end Walk

/-- What is escaped for a path stands for itself in it. -/
theorem keptInPath_of_mem_encode {s : Bytes} {d : UInt8} (h : d ∈ Percent.encode keptInPath s) :
    keptInPath d = true := by
  have digits : ∀ n < 16, keptInPath (upperHex n) = true := by decide
  obtain ⟨b, -, written⟩ := List.mem_flatMap.mp h
  have size := b.toNat_lt
  split at written
  · rename_i kept
    rw [List.mem_singleton.mp written]
    exact kept
  · simp only [Percent.escape, List.mem_cons, List.not_mem_nil, or_false] at written
    rcases written with rfl | rfl | rfl
    · decide
    · exact digits _ (by omega)
    · exact digits _ (by omega)

theorem keptInPath_of_mem_readPath {text : Bytes} {b : UInt8}
    (h : b ∈ readPath http [byte '/'] text) : keptInPath b = true := by
  have signs : ∀ b ∈ bytes "/:", keptInPath b = true := List.all_eq_true.mp (by decide)
  have root : ∀ b ∈ [byte '/'].reverse, keptInPath b = true := List.all_eq_true.mp (by decide)
  have remote : ¬ isFile http = true := by decide
  rw [readPath, if_neg remote, List.mem_reverse] at h
  apply forall_mem_walk signs root _ b h
  intro s hs b hb
  obtain ⟨piece, -, rfl⟩ := List.mem_map.mp hs
  exact keptInPath_of_mem_encode hb

/-- The path of a URL of the web holds only bytes that stand for themselves in a path. -/
theorem keptInPath_of_mem_path {s : Bytes} {u : Url} (read : ofBytes s = .ok u) (web : u.scheme = http)
    {b : UInt8} (h : b ∈ u.path) : keptInPath b = true := by
  obtain ⟨_, _, _, _, _, rest, -, -, rfl⟩ := exists_of_http read web
  have special : isSpecial http = true := by decide
  simp only [assemble, readPathStart, if_pos special] at h
  cases rest with
  | nil => exact keptInPath_of_mem_readPath h
  | cons a rest => exact keptInPath_of_mem_readPath h

/-! ## Folders -/

/-- The bytes of a path up to and including its last slash. -/
def IsFolder (path folder : Bytes) : Prop :=
  folder.getLast? = some (byte '/') ∧ ∃ last, byte '/' ∉ last ∧ path = folder ++ last

/-- A path with a slash in it has a folder. -/
theorem isFolder_directory {path : Bytes} (slash : byte '/' ∈ path) :
    IsFolder path (directory path) := by
  refine ⟨?_, lastSegment path, ?_, ?_⟩
  · rw [directory, List.getLast?_reverse]
    have some_byte : path.reverse.dropWhile (· != byte '/') ≠ [] := by
      rw [ne_eq, List.dropWhile_eq_nil_iff]
      intro all
      exact absurd (all _ (List.mem_reverse.mpr slash)) (by simp)
    obtain ⟨b, rest, whole⟩ := List.exists_cons_of_ne_nil some_byte
    have stops := List.head_dropWhile_not (· != byte '/') some_byte
    simp only [whole, List.head_cons, bne_eq_false_iff_eq] at stops
    rw [whole, stops]
    rfl
  · intro inside
    rw [lastSegment, List.mem_reverse] at inside
    exact absurd (List.mem_takeWhile_imp inside) (by simp)
  · rw [directory, lastSegment, ← List.reverse_append, List.takeWhile_append_dropWhile,
      List.reverse_reverse]

/-- A path has no other folder than the one that references are looked for in. -/
theorem IsFolder.directory_eq {path folder : Bytes} (h : IsFolder path folder) :
    directory path = folder := by
  obtain ⟨closing, last, bare, rfl⟩ := h
  have passed : ∀ b ∈ last.reverse, (b != byte '/') = true := by
    intro b hb
    rw [bne_iff_ne]
    rintro rfl
    exact bare (List.mem_reverse.mp hb)
  rw [← List.head?_reverse] at closing
  obtain ⟨rest, whole⟩ : ∃ rest, folder.reverse = byte '/' :: rest := by
    cases reversed : folder.reverse with
    | nil =>
      rw [reversed] at closing
      cases closing
    | cons b rest =>
      rw [reversed] at closing
      exact ⟨rest, by rw [Option.some.inj closing]⟩
  rw [directory, List.reverse_append, List.dropWhile_append_of_pos passed, whole,
    List.dropWhile_cons_of_neg (by simp), ← whole, List.reverse_reverse]

/-- A reference on the web is looked for in the folder of the path. -/
theorem folder_eq {scheme path folder : Bytes} (remote : isFile scheme = false)
    (h : IsFolder path folder) : Url.folder scheme path = folder := by
  have some_byte : path.isEmpty = false := by
    obtain ⟨closing, last, -, rfl⟩ := h
    rw [List.isEmpty_eq_false_iff]
    exact List.append_ne_nil_of_left_ne_nil (List.ne_nil_of_mem (List.mem_of_getLast? closing)) last
  rw [Url.folder, some_byte, remote]
  exact h.directory_eq

end Url

end GuideRig
