/-
# GuideRig.Proofs.Server.Confinement -- a server looks at no files but its own

Which files a server may look at is settled before the first request: those of the lexicon in its
folder, or its one document (`paths`). A request only chooses among them, so that the answer to it sees
the files through these paths alone, whatever its target, fields and body hold. `respond_confined` says so
of two states of the files that agree on the paths, and tells what pages and faults are made of.
-/

import GuideRig.Server.Connection
import GuideRig.Proofs.Guide.Page

namespace GuideRig.Content

/-! ## The files of a server -/

/-- The paths of all files that a server may look at. -/
def paths : Content → List String
  | pages folder => Lexicon.entries.map fun entry => inFolder folder entry.2
  | document path => [path]

/-- What a page may be: of the guide, what stands after every page, and before it perhaps the whole of one
of the files; of a document, the whole of it. -/
def Shows (content : Content) (files : Files) (body : Bytes) : Prop :=
  match content with
  | pages folder => body = Ascii.bytes "other resource" ∨
      ∃ entry ∈ Lexicon.entries, ∃ page, files (inFolder folder entry.2) = .ok page ∧
        body = page ++ Ascii.bytes "other resource"
  | document path => files path = .ok body

/-- A query leads to a file of the lexicon, or to none. -/
theorem exists_mem_entries {query : Option Bytes} {file : String} (h : pageFile? query = some file) :
    ∃ word, (word, file) ∈ Lexicon.entries := by
  obtain ⟨word, -, found⟩ := Option.bind_eq_some_iff.mp h
  exact ⟨word, Lexicon.file?_eq_some_iff.mp found⟩

theorem mem_paths {content : Content} {query : Option Bytes} {path : String}
    (h : content.path? query = some path) : path ∈ content.paths := by
  cases content with
  | document document =>
    rw [← Option.some.inj h]
    exact List.mem_singleton_self document
  | pages folder =>
    obtain ⟨file, page, rfl⟩ := Option.map_eq_some_iff.mp h
    obtain ⟨word, listed⟩ := exists_mem_entries page
    exact List.mem_map.mpr ⟨_, listed, rfl⟩

/-! ## What pages and faults are made of -/

/-- A query gets a page, or a fault that tells of one of the server's files. -/
theorem render_cases (content : Content) (files : Files) (query : Option Bytes) :
    (∃ body, content.render files query = .ok body ∧ content.Shows files body) ∨
      ∃ path ∈ content.paths, ∃ cause, files path = .error cause ∧
        content.render files query = .error ⟨path, cause⟩ := by
  cases content with
  | document path =>
    cases read : files path with
    | ok page =>
      refine .inl ⟨page, ?_, read⟩
      simp only [render, readFile, read]
    | error cause =>
      refine .inr ⟨path, List.mem_singleton_self path, cause, read, ?_⟩
      simp only [render, readFile, read]
  | pages folder =>
    cases page : pageFile? query with
    | none => exact .inl ⟨fallback, render_of_none page folder files, .inl rfl⟩
    | some file =>
      obtain ⟨word, listed⟩ := exists_mem_entries page
      have whole := render_of_pageFile? page folder files
      cases read : files (inFolder folder file) with
      | ok page =>
        refine .inl ⟨page ++ fallback, ?_, .inr ⟨_, listed, page, read, rfl⟩⟩
        simp only [whole, answer, read]
      | error cause =>
        refine .inr ⟨_, List.mem_map.mpr ⟨_, listed, rfl⟩, cause, read, ?_⟩
        simp only [whole, answer, read]

/-! ## Answers -/

/-- A request is refused, gets a page, or fails at one of the server's files. -/
theorem respond_cases (content : Content) (files : Files) (r : Request) :
    (r.method ≠ .get ∧ content.respond files r = .ok notImplemented) ∨
      (r.method = .get ∧ ∃ body, content.render files r.query? = .ok body ∧
        content.respond files r = .ok ⟨200, [htmlField], body⟩ ∧ content.Shows files body) ∨
      (r.method = .get ∧ ∃ path ∈ content.paths, ∃ cause, files path = .error cause ∧
        content.render files r.query? = .error ⟨path, cause⟩ ∧
        content.respond files r = .error ⟨path, cause⟩) := by
  rw [respond]
  by_cases get : r.method = .get
  · rw [if_neg (not_not.mpr get)]
    rcases render_cases content files r.query? with ⟨body, shown, made⟩ |
      ⟨path, listed, cause, unread, failed⟩
    · rw [shown]
      exact .inr (.inl ⟨get, body, rfl, rfl, made⟩)
    · rw [failed]
      exact .inr (.inr ⟨get, path, listed, cause, unread, rfl, rfl⟩)
  · rw [if_pos get]
    exact .inl ⟨get, rfl⟩

/-- The answer sees no files but those at the server's paths. -/
theorem respond_congr {content : Content} {files files' : Files}
    (h : ∀ path ∈ content.paths, files path = files' path) (r : Request) :
    content.respond files r = content.respond files' r := by
  rw [respond, respond, render_congr fun path leads => h path (mem_paths leads)]

/-- Neither does what becomes of the connection. -/
theorem handle_congr {content : Content} {files files' : Files}
    (h : ∀ path ∈ content.paths, files path = files' path) (client : Client) (connection : Connection)
    (r : Request) : Connection.handle content client files connection r =
      Connection.handle content client files' connection r := by
  cases connection with
  | absent => rfl
  | accepted => simp only [Connection.handle, respond_congr h r]
  | closed => rfl

/-- For every request two states of the files that agree on the paths of a server get the same answer, or
the same fault and with it the same end of the connection. A page is one of those that the files at these
paths make, and a fault names one of them. -/
theorem respond_confined (content : Content) (r : Request) (files : Files) :
    (∀ files' : Files, (∀ path ∈ content.paths, files path = files' path) →
      content.respond files r = content.respond files' r ∧
        ∀ client connection, Connection.handle content client files connection r =
          Connection.handle content client files' connection r) ∧
    (∀ response, r.method = .get → content.respond files r = .ok response →
      response.status = 200 ∧ content.Shows files response.body) ∧
    ∀ fault, content.respond files r = .error fault →
      fault.path ∈ content.paths ∧ files fault.path = .error fault.cause := by
  refine ⟨?_, ?_, ?_⟩
  · intro files' agree
    exact ⟨respond_congr agree r, fun client connection => handle_congr agree client connection r⟩
  · intro response get answered
    rcases respond_cases content files r with ⟨other, -⟩ | ⟨-, body, -, shown, made⟩ |
      ⟨-, path, -, cause, -, -, failed⟩
    · exact absurd get other
    · rw [shown] at answered
      rw [← Except.ok.inj answered]
      exact ⟨rfl, made⟩
    · rw [failed] at answered
      cases answered
  · intro fault failed
    rcases respond_cases content files r with ⟨-, refused⟩ | ⟨-, body, -, shown, -⟩ |
      ⟨-, path, listed, cause, unread, -, stopped⟩
    · rw [refused] at failed
      cases failed
    · rw [shown] at failed
      cases failed
    · rw [stopped] at failed
      rw [← Except.error.inj failed]
      exact ⟨listed, unread⟩

end GuideRig.Content
