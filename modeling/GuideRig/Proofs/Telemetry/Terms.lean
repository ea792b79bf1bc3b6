/-
# GuideRig.Proofs.Telemetry.Terms -- a term arrives as it was chosen

Whatever a term holds, the request that looks it up has a query made of letters, digits and seven signs,
and whoever reads that query as a form finds the term in it and nothing else (`Request.Asks`). Of the
root there is no query left to mix with: the question mark that the term stands behind is the first, since
a path holds none, and no number sign ends the query before the term does.
-/

import GuideRig.Proofs.Telemetry.Destination
import GuideRig.Server.Connection

namespace GuideRig

open Ascii

namespace Request

variable {r : Request} {s t : String}

/-- The query of a request is a form with a term in it, and with nothing else. -/
def Asks (r : Request) (term : String) : Prop :=
  ∃ q, r.query? = some q ∧ (∀ b ∈ q, Query.IsFormByte b) ∧ Query.pairs q = [("q", term)]

theorem Asks.unique (one : r.Asks s) (other : r.Asks t) : s = t := by
  obtain ⟨q, query, -, pair⟩ := one
  obtain ⟨q', query', -, pair'⟩ := other
  obtain rfl : q = q' := Option.some.inj (query.symm.trans query')
  rw [pair] at pair'
  exact (Prod.mk.inj (List.cons.inj pair').1).2

/-- What stands behind a question mark is the query, if neither sign that cuts a target comes before it
and it is not cut itself. -/
theorem query?_of_target {front q : Bytes} (target : r.target = front ++ byte '?' :: q)
    (mark : byte '?' ∉ front) (whole : byte '#' ∉ front) (uncut : byte '#' ∉ q) :
    r.query? = some q := by
  have kept : ∀ b ∈ front ++ byte '?' :: q, (b != byte '#') = true := by
    intro b hb
    rw [bne_iff_ne]
    rintro rfl
    rcases List.mem_append.mp hb with before | after
    · exact whole before
    · rcases List.mem_cons.mp after with sign | later
      · cases sign
      · exact uncut later
  have passed : ∀ b ∈ front, (b != byte '?') = true := fun b hb =>
    bne_iff_ne.mpr fun here => mark (here ▸ hb)
  rw [query?, target, List.takeWhile_eq_self_iff.mpr kept, List.dropWhile_append_of_pos passed,
    List.dropWhile_cons_of_neg (by simp)]

end Request

namespace Bot

/-- A search in a folder that has no sign of its own that cuts a target asks for its term. -/
theorem asks_of_searchTarget {folder : Bytes} (mark : byte '?' ∉ folder) (whole : byte '#' ∉ folder)
    {r : Request} {term : String} (target : r.target = searchTarget folder term) : r.Asks term := by
  have free : ∀ {b : UInt8}, b ∉ folder → b ∉ guideSegment → b ∉ folder ++ guideSegment :=
    fun one other both => (List.mem_append.mp both).elim one other
  have uncut : byte '#' ∉ Query.ofPair "q" term := fun h =>
    absurd (Query.isFormByte_of_mem_ofPair h) (by decide)
  refine ⟨Query.ofPair "q" term, ?_, fun _ => Query.isFormByte_of_mem_ofPair, Query.pairs_ofPair ..⟩
  rw [searchTarget_eq] at target
  exact Request.query?_of_target target (free mark (by decide)) (free whole (by decide)) uncut

/-- Under every root of the web, whatever else the root holds, there is one target for every term, and
different targets for different terms: a request with that target has a query of letters, digits and the
signs of a form, in which the term is the one thing to read. A search sends a request with the target of
the term that was drawn, or none. -/
theorem makeRequest_asks {text : String} {root : Url} (parsed : Url.ofText text = .ok root)
    (web : root.scheme = Url.http) (session : Session) (conf : Conf) (window : Duration) :
    let bot : Bot := ⟨root, session, conf, window⟩
    ∃ target : String → Bytes,
      (∀ term, ∃ url, bot.searchUrl term = .ok url ∧ url.target = target term) ∧
      (∀ term (r : Request), r.target = target term → r.Asks term) ∧
      Function.Injective target ∧
      ∀ (backend : Backend) (p : Progress), Sends p (bot.makeRequest backend p) fun r =>
        ∃ term, (bot.term? p.words).1 = some term ∧ r.method = .get ∧ r.target = target term := by
  intro bot
  obtain ⟨folder, authority, site⟩ := Url.exists_isSite parsed web
  have free : ∀ {b : UInt8}, Url.keptInPath b = false → b ∉ folder := by
    intro b cutting inside
    obtain ⟨-, last, -, whole⟩ := site.folder
    have kept := Url.keptInPath_of_mem_path parsed web (whole ▸ List.mem_append_left last inside)
    rw [cutting] at kept
    cases kept
  have asks (term : String) (r : Request) : r.target = searchTarget folder term → r.Asks term :=
    asks_of_searchTarget (free (by decide)) (free (by decide))
  refine ⟨searchTarget folder, ?_, asks, ?_, ?_⟩
  · intro term
    exact ⟨_, @searchUrl_eq bot _ _ site term, (searchTarget_eq folder term).symm⟩
  · -- a request with the target of two terms would ask for both
    intro s t same
    let r : Request := ⟨.get, searchTarget folder s, [], []⟩
    have one : r.Asks s := asks s r rfl
    have other : r.Asks t := asks t r same
    exact one.unique other
  · intro backend p
    refine (@makeRequest_looksUp bot _ _ site backend p).mono fun r h => ?_
    obtain ⟨term, drawn, target⟩ := h.target
    exact ⟨term, drawn, h.method, target⟩

/-- A root with a query and a fragment of its own, and a term with the signs that forms and URLs are cut
at. -/
theorem makeRequest_asks_signs :
    let root : Url := ⟨Url.http, some ⟨bytes "u", some (bytes "p"), .domain (bytes "localhost"),
      some 3010⟩, bytes "/wag/", true, some (bytes "q=x"), some (bytes "y")⟩
    let term := "a&b=c+d%e#ž"
    Url.ofText "http://u:p@localhost:3010/wag/?q=x#y" = .ok root ∧ root.scheme = Url.http ∧
      ∀ r : Request, r.target = bytes "/wag/language-guide?q=a%26b%3Dc%2Bd%25e%23%C5%BE" →
        r.Asks term := by
  intro root term
  have parsed : Url.ofText "http://u:p@localhost:3010/wag/?q=x#y" = .ok root := by decide
  have web : root.scheme = Url.http := rfl
  refine ⟨parsed, web, fun r here => ?_⟩
  obtain ⟨target, found, asks, -⟩ :=
    makeRequest_asks parsed web ⟨"abc"⟩ ⟨[term], .empty⟩ ⟨60, 0⟩
  obtain ⟨url, made, shown⟩ := found term
  obtain rfl := Except.ok.inj made
  apply asks
  rw [here, ← shown]
  decide

end Bot

end GuideRig
