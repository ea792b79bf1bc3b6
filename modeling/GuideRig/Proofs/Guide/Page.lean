/-
# GuideRig.Proofs.Guide.Page -- which file an answer is made of

A file is read when the answer can tell two states of the files apart that differ nowhere else (`Reads`);
that is the one path that `path?` names, for every content and query (`reads_iff`). What a query leads
to is settled in `GuideRig.Proofs.Guide.Lexicon`; here the two meet. `render_gives` tells the answer by
the bytes of the query alone, and `render_spells` finds every word under each of its spellings.
-/

import GuideRig.Guide.Page
import GuideRig.Proofs.Guide.Lexicon

namespace GuideRig.Content

/-! ## Files that are read -/

/-- The answer to a query depends on what reading a path gives. -/
def Reads (content : Content) (query : Option Bytes) (path : String) : Prop :=
  ∃ files files' : Files, (∀ other, other ≠ path → files other = files' other) ∧
    render content files query ≠ render content files' query

/-- The answer sees no file but the one at its path. -/
theorem render_congr {content : Content} {query : Option Bytes} {files files' : Files}
    (h : ∀ path, content.path? query = some path → files path = files' path) :
    render content files query = render content files' query := by
  cases content with
  | document path => rw [render, render, readFile, readFile, h path rfl]
  | pages folder =>
    rw [render, render]
    cases page : pageFile? query with
    | none => rfl
    | some file =>
      have same := h (inFolder folder file) (by rw [path?, page]; rfl)
      simp only [readFile, same]

/-- The answer tells a file at its path from none. -/
theorem render_ne {content : Content} {query : Option Bytes} {path : String}
    (h : content.path? query = some path) :
    render content (fun _ => .error .notFound) query ≠
      render content (fun other => if other = path then .ok [] else .error .notFound) query := by
  cases content with
  | document document =>
    rw [← Option.some.inj h]
    simp [render, readFile]
  | pages folder =>
    obtain ⟨file, page, rfl⟩ := Option.map_eq_some_iff.mp h
    simp [render, readFile, page]

/-- What is read is the path of the query, and nothing else. -/
theorem reads_iff {content : Content} {query : Option Bytes} {path : String} :
    Reads content query path ↔ content.path? query = some path := by
  constructor
  · rintro ⟨files, files', agree, differ⟩
    by_contra other_path
    refine differ (render_congr fun place read => agree place ?_)
    rintro rfl
    exact other_path read
  · intro h
    refine ⟨_, _, fun other apart => ?_, render_ne h⟩
    exact (if_neg apart).symm

/-- There is no answer where the file that a query leads to cannot be read, and nowhere else. -/
theorem render_isOk_eq_false_iff {content : Content} {files : Files} {query : Option Bytes} :
    (content.render files query).isOk = false ↔
      ∃ path, content.path? query = some path ∧ ∃ cause, files path = .error cause := by
  have read (path : String) : (readFile files path).isOk = false ↔ ∃ cause, files path = .error cause := by
    rw [readFile]
    cases files path <;> simp [Except.isOk, Except.toBool]
  cases content with
  | document path => simp [render, path?, read]
  | pages folder =>
    cases page : pageFile? query with
    | none => simp [render, path?, page, Except.isOk, Except.toBool]
    | some file =>
      simp only [render, path?, page, Option.map_some, Option.some.injEq, exists_eq_left', ← read]
      cases readFile files (inFolder folder file) <;> rfl

/-! ## Files of a folder -/

/-- Names that do not start at the root stay apart in a folder. -/
theorem inFolder_injective {folder f g : String} (hf : f.toList.head? ≠ some '/')
    (hg : g.toList.head? ≠ some '/') (h : inFolder folder f = inFolder folder g) : f = g := by
  -- how a folder and a name are joined depends on the folder alone
  simp only [inFolder, hf, hg] at h
  split at h
  · exact h
  · split at h
    · exact (String.append_right_inj folder).mp h
    · exact (String.append_right_inj _).mp h

theorem head?_ne_slash {w f : String} (h : (w, f) ∈ Lexicon.entries) :
    f.toList.head? ≠ some '/' := by
  have table : ∀ e ∈ Lexicon.entries, e.2.toList.head? ≠ some '/' := by decide
  exact table _ h

/-! ## Answers from the lexicon -/

/-- The answer to a query that leads to a file: the file and what stands after every page, or why the
file could not be read. -/
def answer (files : Files) (path : String) : Except ReadFault Bytes :=
  match files path with
  | .ok page => .ok (page ++ fallback)
  | .error cause => .error ⟨path, cause⟩

theorem render_of_pageFile? {query : Option Bytes} {file : String} (h : pageFile? query = some file)
    (folder : String) (files : Files) :
    render (.pages folder) files query = answer files (inFolder folder file) := by
  simp only [render, h, readFile, answer]
  cases files (inFolder folder file) <;> rfl

theorem render_of_none {query : Option Bytes} (h : pageFile? query = none) (folder : String)
    (files : Files) : render (.pages folder) files query = .ok fallback := by
  simp only [render, h]

theorem pageFile?_eq_some_iff {query : Bytes} {f : String} : pageFile? (some query) = some f ↔
    ∃ w, (w, f) ∈ Lexicon.entries ∧
      Query.Gives (Utf8.encode Lexicon.parameter) query (Utf8.encode w) :=
  Lexicon.bind_file?_eq_some_iff

/-- For every query a page is read exactly when the bytes that the query gives the parameter are those of
its word, and makes up the answer with what stands after every page; with no such word that alone is the
answer, whatever the files are. -/
theorem render_gives (folder : String) (query : Bytes) :
    (∀ w f, (w, f) ∈ Lexicon.entries →
      (Reads (.pages folder) (some query) (inFolder folder f) ↔
        Query.Gives (Utf8.encode "slovo") query (Utf8.encode w))) ∧
    ((∃ w f, (w, f) ∈ Lexicon.entries ∧
        Query.Gives (Utf8.encode "slovo") query (Utf8.encode w) ∧
        ∀ files, render (.pages folder) files (some query) = answer files (inFolder folder f)) ∨
      ((∀ w f, (w, f) ∈ Lexicon.entries →
          ¬ Query.Gives (Utf8.encode "slovo") query (Utf8.encode w)) ∧
        ∀ files, render (.pages folder) files (some query) = .ok fallback)) := by
  constructor
  · intro w f listed
    rw [reads_iff]
    constructor
    · intro read
      obtain ⟨g, page, same⟩ := Option.map_eq_some_iff.mp read
      obtain ⟨w', listed', given⟩ := pageFile?_eq_some_iff.mp page
      -- the path that is read is that of another name only if the names are the same
      obtain rfl := inFolder_injective (head?_ne_slash listed') (head?_ne_slash listed) same
      have word : w' = w := Lexicon.word_unique listed' listed
      rw [← word]
      exact given
    · intro given
      have page := pageFile?_eq_some_iff.mpr ⟨w, listed, given⟩
      rw [path?, page, Option.map_some]
  · cases page : pageFile? (some query) with
    | none =>
      refine .inr ⟨fun w f listed given => ?_, render_of_none page folder⟩
      rw [pageFile?_eq_some_iff.mpr ⟨w, listed, given⟩] at page
      cases page
    | some f =>
      obtain ⟨w, listed, given⟩ := pageFile?_eq_some_iff.mp page
      exact .inl ⟨w, f, listed, given, render_of_pageFile? page folder⟩

/-- Every word that is not empty is found under every spelling of the parameter and of the word, with any
query after it and any query before it that names no word: the answer is made of its page if it has one,
and of no file if it has none. -/
theorem render_spells (folder : String) (files : Files) (before after : Option Bytes)
    {w : String} {k e : Bytes} (some_word : w ≠ "")
    (unnamed : ∀ query ∈ before, Lexicon.word? query = none)
    (name : Query.Spells "slovo".toList k) (word : Query.Spells w.toList e) :
    (∀ f, (w, f) ∈ Lexicon.entries →
      render (.pages folder) files
          (some (Query.around before (k ++ Ascii.byte '=' :: e) after)) =
        answer files (inFolder folder f)) ∧
    ((∀ f, (w, f) ∉ Lexicon.entries) →
      render (.pages folder) files
          (some (Query.around before (k ++ Ascii.byte '=' :: e) after)) = .ok fallback ∧
        ∀ path, ¬ Reads (.pages folder)
          (some (Query.around before (k ++ Ascii.byte '=' :: e) after)) path) := by
  have page : pageFile? (some (Query.around before (k ++ Ascii.byte '=' :: e) after)) =
      Lexicon.file? w :=
    congrArg (Option.bind · Lexicon.file?) (Lexicon.word?_of_spells after some_word unnamed name word)
  constructor
  · intro f listed
    rw [Lexicon.file?_eq_some_iff.mpr listed] at page
    exact render_of_pageFile? page folder files
  · intro unlisted
    have none_page : Lexicon.file? w = none :=
      Option.eq_none_iff_forall_ne_some.mpr fun f file =>
        unlisted f (Lexicon.file?_eq_some_iff.mp file)
    rw [none_page] at page
    refine ⟨render_of_none page folder files, fun path read => ?_⟩
    rw [reads_iff, path?, page] at read
    cases read

/-- A word with an escaped letter, after a parameter with no value and before a second word. -/
theorem render_spells_between :
    render (.pages "pages") (fun _ => .error .notFound)
        (some (Ascii.bytes "slovo=&q=%zz&slovo=mal%C3%bd&slovo=nebo")) =
      .error ⟨"pages/adjective_response.html", .notFound⟩ := by
  have name : Query.Spells "slovo".toList (Ascii.bytes "slovo") := Query.spells_encode (by simp)
  have letter : Query.Spells ['ý'] (Ascii.bytes "%C3%bd" ++ []) :=
    .escaped (.cons ⟨by decide, .inl rfl⟩ ⟨by decide, .inl rfl⟩
      (.cons ⟨by decide, .inr rfl⟩ ⟨by decide, .inr rfl⟩ .nil)) .nil
  have word : Query.Spells "malý".toList (Ascii.bytes "mal%C3%bd") :=
    .literal (by decide) (by decide) (by decide)
      (.literal (by decide) (by decide) (by decide)
        (.literal (by decide) (by decide) (by decide) letter))
  have unnamed : ∀ query ∈ some (Ascii.bytes "slovo=&q=%zz"), Lexicon.word? query = none := by
    rintro _ ⟨⟩
    rw [Lexicon.word?_eq]
    decide
  exact (render_spells "pages" (fun _ => .error .notFound) (some (Ascii.bytes "slovo=&q=%zz"))
    (some (Ascii.bytes "slovo=nebo")) (by decide) unnamed name word).1
      "adjective_response.html" (by decide)

end GuideRig.Content
