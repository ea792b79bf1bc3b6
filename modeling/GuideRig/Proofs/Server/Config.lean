/-
# GuideRig.Proofs.Server.Config -- a server is what its document describes

The entries of a document describe a server when its address, its name and what it has to show stand under
their keys (`ServerConfig.IsDescribedBy`). Their order does not matter, save that of two keys for what there
is to show the first one counts, and neither do entries under other keys. Every document of such entries
is loaded as the server that they describe, whatever address, name and path it has (`load_described`).
-/

import GuideRig.Proofs.Conf
import GuideRig.Proofs.Net.Address
import GuideRig.Proofs.Toml.Document

namespace GuideRig

open Ascii Toml

/-- The text of a file that has been written. -/
theorem Files.text_written (files : Files) (path s : String) :
    (files.written path (Utf8.encode s)).text path = .ok s := by
  simp only [Files.text, Files.bytes_written, Utf8.decode?_eq_some_iff.mpr rfl]

namespace ServerConfig

/-! ## Descriptions -/

/-- What a path says there is to show, under the key of a single document or that of a folder. -/
inductive Shows : String → String → Content → Prop
  | file (path : String) : Shows fileKey path (.document path)
  | fixtures (folder : String) : Shows fixturesKey folder (.pages folder)

/-- The entries of a document describe a server. -/
structure IsDescribedBy (c : ServerConfig) (es : List (String × Value)) : Prop where
  /-- No name is given twice. -/
  distinct : (es.map Prod.fst).Nodup
  /-- The address is given by its text. -/
  listen : (listenKey, .text c.listen.text) ∈ es
  /-- The name is given if there is one. -/
  name (v : Value) : (nameKey, v) ∈ es ↔ ∃ n, c.name = some n ∧ v = .text n
  /-- What there is to show is given by one of the two keys, and neither stands before it. -/
  content : ∃ front key path back, es = front ++ (key, .text path) :: back ∧ Shows key path c.content ∧
    ∀ e ∈ front, e.1 ≠ fileKey ∧ e.1 ≠ fixturesKey

variable {es : List (Key × Node)} {listing : List (String × Value)} {a : SocketAddress}
variable {l : Option SocketAddress} {m n : Option String}

/-! ## Reading entries -/

theorem readListen_text (a : SocketAddress) : readListen (.text a.text) = .ok a := by
  rw [readListen, SocketAddress.ofText?_text]

/-- Address and name are read from their entries, wherever they stand; the ones that were read before are
those asked for, or are still to be read. -/
theorem readEntries_eq (same : es.map (fun e => (e.1.name, e.2.asValue)) = listing)
    (listens : ∀ v, (listenKey, v) ∈ listing → v = .text a.text)
    (names : ∀ v, (nameKey, v) ∈ listing → ∃ s, n = some s ∧ v = .text s)
    (listen : l = some a ∨ ∃ v, (listenKey, v) ∈ listing) (name : m = n ∨ ∃ v, (nameKey, v) ∈ listing) :
    readEntries es (l, m) = .ok (some a, n) := by
  induction es generalizing listing l m with
  | nil =>
    subst same
    obtain rfl := listen.resolve_right fun ⟨_, h⟩ => List.not_mem_nil h
    obtain rfl := name.resolve_right fun ⟨_, h⟩ => List.not_mem_nil h
    rfl
  | cons e es ih =>
    obtain ⟨key, node⟩ := e
    obtain ⟨k, left⟩ := key
    subst same
    have listens_later v (h : (listenKey, v) ∈ es.map fun e => (e.1.name, e.2.asValue)) :=
      listens v (List.mem_cons_of_mem _ h)
    have names_later v (h : (nameKey, v) ∈ es.map fun e => (e.1.name, e.2.asValue)) :=
      names v (List.mem_cons_of_mem _ h)
    have later {key : String} (other : k ≠ key) (h : ∃ v, (key, v) ∈
        List.map (fun e => (e.1.name, e.2.asValue)) ((⟨k, left⟩, node) :: es)) :
        ∃ v, (key, v) ∈ es.map fun e => (e.1.name, e.2.asValue) := by
      obtain ⟨v, member⟩ := h
      rcases List.mem_cons.mp member with first | more
      · exact absurd (Prod.mk.inj first).1.symm other
      · exact ⟨v, more⟩
    by_cases isListen : k = listenKey
    · subst isListen
      have value : node.asValue = .text a.text := listens _ List.mem_cons_self
      rw [readEntries, if_pos rfl, value, readListen_text]
      exact ih rfl listens_later names_later (.inl rfl) (name.imp_right (later (by decide)))
    · by_cases isName : k = nameKey
      · subst isName
        obtain ⟨s, rfl, value⟩ := names _ List.mem_cons_self
        rw [readEntries, if_neg isListen, if_pos rfl, value]
        exact ih rfl listens_later names_later (listen.imp_right (later (by decide))) (.inl rfl)
      · rw [readEntries, if_neg isListen, if_neg isName]
        exact ih rfl listens_later names_later (listen.imp_right (later isListen)) (name.imp_right (later isName))

/-- Of the two keys for what there is to show the first one counts. -/
theorem readContent_eq {front back : List (String × Value)} {key path : String} {content : Content}
    (same : es.map (fun e => (e.1.name, e.2.asValue)) = front ++ (key, .text path) :: back)
    (shows' : Shows key path content) (before : ∀ e ∈ front, e.1 ≠ fileKey ∧ e.1 ≠ fixturesKey) :
    readContent es = .ok content := by
  induction front generalizing es with
  | nil =>
    obtain ⟨e, es, rfl, first, -⟩ := List.map_eq_cons_iff.mp same
    obtain ⟨⟨k, left⟩, node⟩ := e
    obtain ⟨named, value⟩ := Prod.mk.inj first
    cases shows' with
    | file =>
      have isFile : k = fileKey := named
      rw [readContent, if_pos isFile, value]
    | fixtures =>
      have isFixtures : k = fixturesKey := named
      have notFile : k ≠ fileKey := isFixtures ▸ by decide
      rw [readContent, if_neg notFile, if_pos isFixtures, value]
  | cons e front ih =>
    obtain ⟨e', es, rfl, first, later⟩ := List.map_eq_cons_iff.mp same
    obtain ⟨⟨k, left⟩, node⟩ := e'
    obtain ⟨other, others⟩ := List.forall_mem_cons.mp before
    rw [← first] at other
    rw [readContent, if_neg other.1, if_neg other.2]
    exact ih later others

/-! ## Loading -/

/-- A document is loaded as the server that its entries describe. -/
theorem load_described (files : Files) (path : String) {es : List (String × Value)} {doc : String}
    {c : ServerConfig} (isWritten : IsWritten es doc) (described : c.IsDescribedBy es) :
    load (files.written path (Utf8.encode doc)) path = .ok c := by
  obtain ⟨t, read, listing⟩ := isWritten.read described.distinct
  have listens v (h : (listenKey, v) ∈ es) : v = .text c.listen.text := by
    have same := List.inj_on_of_nodup_map described.distinct h described.listen rfl
    exact (Prod.mk.inj same).2
  have entries : readEntries t.entries (none, none) = .ok (some c.listen, c.name) := by
    apply readEntries_eq listing listens (fun v h => (described.name v).mp h) (.inr ⟨_, described.listen⟩)
    cases named : c.name with
    | none => exact .inl rfl
    | some s => exact .inr ⟨.text s, (described.name _).mpr ⟨s, named, rfl⟩⟩
  obtain ⟨front, key, shown, back, split, shows', before⟩ := described.content
  have content : readContent t.entries = .ok c.content := readContent_eq (listing.trans split) shows' before
  simp only [load, Files.text_written, ofDocument, read, entries, content]

/-- A server with a scope in its address and escapes in its name, of whose two keys for what there is to show
the first one counts. -/
theorem load_described_scoped :
    let files : Files := fun _ => .error .notFound
    let address : SocketAddress := .v6 ⟨[0xFE80, 0, 0, 0, 0, 0, 0, 1], rfl⟩ 80 3
    let c : ServerConfig := ⟨address, .pages "péges", some "a \"b\"\x07\\"⟩
    let es := [("retries", .whole (-3)), ("name", .text "a \"b\"\x07\\"), ("fixtures", .text "péges"),
      ("file", .text "f"), ("listen", .text "[fe80::1%3]:80")]
    let doc := "retries = -3\n\"name\" = \"a \\\"b\\\"\\u0007\\\\\"\nfixtures = \"péges\" # first\r\n" ++
      "file = \"f\"\nlisten = \"[fe80::1%3]:80\""
    IsWritten es doc ∧ c.IsDescribedBy es ∧
      load (files.written "server.toml" (Utf8.encode doc)) "server.toml" = .ok c := by
  intro files address c es doc
  have shown : address.text = "[fe80::1%3]:80" := by
    have group : Ipv6.hex 0xFE80 = bytes "fe80" := by
      rw [Ipv6.hex, if_neg (by decide), Ipv6.hex, if_neg (by decide), Ipv6.hex, if_neg (by decide), Ipv6.hex,
        if_pos (by decide)]
      rfl
    have last : Ipv6.hex 1 = bytes "1" := by
      rw [Ipv6.hex, if_pos (by decide)]
      rfl
    have scope : decimal 3 = bytes "3" := decimal_of_lt (by decide)
    have port : decimal 80 = bytes "80" := by
      rw [decimal_of_le (by decide), decimal_of_lt (by decide)]
      rfl
    have written : address.bytes = byte '[' :: (Ipv6.hex 0xFE80 ++ byte ':' :: byte ':' :: Ipv6.hex 1) ++
        byte '%' :: decimal 3 ++ byte ']' :: byte ':' :: decimal 80 := rfl
    rw [SocketAddress.text, written, group, last, scope, port]
    decide
  have line {key : String} {w value trail : List Char} {v : Value} (isKey : IsKey key w)
      (isValue : IsValue v value) (isTrail : IsTrail trail) :
      IsLine (some (key, v)) ([] ++ (w ++ ([' '] ++ '=' :: ([' '] ++ (value ++ trail))))) :=
    .entry (List.forall_mem_nil _) isKey (List.forall_mem_singleton.mpr rfl) (List.forall_mem_singleton.mpr rfl)
      isValue isTrail
  have bare (key : String) (some_char : key.toList ≠ []) (kept : key.toList.all inBareKey = true) :
      IsKey key key.toList := .bare some_char (List.all_eq_true.mp kept)
  have quoted (t : String) : IsValue (.text t) (Text.quote t) := .text (.line (Text.isQuoted_quote t))
  have none_behind : IsTrail [] := .blanks (List.forall_mem_nil _)
  have isWritten : IsWritten es doc := by
    have digit : IsDigits 10 [3] ['3'] := .mk rfl .nil
    have number : IsValue (.whole (-3)) ['-', '3'] :=
      .whole (.decimal .minus digit (by decide) rfl (by decide) (by decide))
    have retries : IsLine (some ("retries", .whole (-3))) "retries = -3".toList :=
      line (bare "retries" (by decide) (by decide)) number none_behind
    have name : IsLine (some ("name", .text "a \"b\"\x07\\")) "\"name\" = \"a \\\"b\\\"\\u0007\\\\\"".toList :=
      line (.quoted (Text.isQuoted_quote "name")) (quoted _) none_behind
    have fixtures : IsLine (some ("fixtures", .text "péges")) "fixtures = \"péges\" # first".toList :=
      line (bare "fixtures" (by decide) (by decide)) (quoted _)
        (.comment (List.forall_mem_singleton.mpr rfl) (List.all_eq_true.mp (by decide)))
    have file : IsLine (some ("file", .text "f")) "file = \"f\"".toList :=
      line (bare "file" (by decide) (by decide)) (quoted _) none_behind
    have listen : IsLine (some ("listen", .text "[fe80::1%3]:80")) "listen = \"[fe80::1%3]:80\"".toList :=
      line (bare "listen" (by decide) (by decide)) (quoted _) none_behind
    apply IsWritten.plain
    have lines := IsDocument.line retries (.inl rfl) (.line name (.inl rfl) (.line fixtures (.inr rfl)
      (.line file (.inl rfl) (.last listen))))
    have together : doc.toList = "retries = -3".toList ++ (['\n'] ++
        ("\"name\" = \"a \\\"b\\\"\\u0007\\\\\"".toList ++ (['\n'] ++
          ("fixtures = \"péges\" # first".toList ++ (['\r', '\n'] ++
            ("file = \"f\"".toList ++ (['\n'] ++ "listen = \"[fe80::1%3]:80\"".toList))))))) := by
      decide
    rw [together]
    exact lines
  have described : c.IsDescribedBy es := by
    refine ⟨by decide, ?_, ?_, ?_⟩
    · rw [shown]
      decide
    · intro v
      constructor
      · intro h
        have value : v = .text "a \"b\"\x07\\" := by simpa [es, nameKey] using h
        exact ⟨_, rfl, value⟩
      · rintro ⟨n, ⟨⟩, rfl⟩
        decide
    · exact ⟨[("retries", .whole (-3)), ("name", .text "a \"b\"\x07\\")], _, _, _, rfl, .fixtures "péges",
        by decide⟩
  exact ⟨isWritten, described, load_described files "server.toml" isWritten described⟩

end ServerConfig

end GuideRig
