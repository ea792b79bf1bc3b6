/-
# GuideRig.Proofs.Telemetry.Chance -- what chance can decide of a bot

Chance decides the token of a session that is not given and the term of every search. Both are drawn as
numbers below a bound, so they stay in their range whatever the words are: a token has its length, its
alphabet and a place in a header (`Session.isRandom_random`), and a search is for an entry of the list of
queries (`Bot.picks_drawn`). Nothing in the range is left out: every token and every index comes out of
some stream of words. `Bot.draws_cover` puts the two together.
-/

import GuideRig.Proofs.Telemetry.Requests

namespace GuideRig

/-! ## Tokens -/

namespace Session

/-- A character that a random token may be made of. -/
def IsLetter (c : Char) : Prop := 'a' ≤ c ∧ c ≤ '{'

theorem isLetter_iff {c : Char} : IsLetter c ↔ 97 ≤ c.toNat ∧ c.toNat ≤ 123 := Iff.rfl

theorem isLetter_letter {i : ℕ} (small : i < alphabetSize) : IsLetter (letter i) := by
  have all : ∀ i < alphabetSize, 'a' ≤ letter i ∧ letter i ≤ '{' := by decide
  exact all i small

/-- Every letter has its place in the alphabet. -/
theorem exists_letter {c : Char} (h : IsLetter c) : ∃ i < alphabetSize, letter i = c := by
  obtain ⟨low, high⟩ := isLetter_iff.mp h
  refine ⟨c.toNat - 97, ?_, ?_⟩
  · show c.toNat - 97 < 27
    omega
  · have place : 'a'.toNat + (c.toNat - 97) = c.toNat := by
      show 97 + (c.toNat - 97) = c.toNat
      omega
    rw [letter, place, Char.ofNat_toNat]

/-- A letter may stand in a header. -/
theorem IsLetter.not_isBarred {c : Char} (h : IsLetter c) : ¬ IsBarred c := by
  obtain ⟨low, high⟩ := isLetter_iff.mp h
  rintro ⟨-, control | delete⟩
  · omega
  · omega

/-- A token drawn from a stream, and what is left of the stream. -/
structure IsRandom (w : Words) (s : Session) (left : Words) : Prop where
  size : s.id.toList.length = 64
  letters : ∀ c ∈ s.id.toList, 'a' ≤ c ∧ c ≤ '{'
  /-- Each character takes one word or two. -/
  stream : left.stream = w.stream
  least : w.used + 64 ≤ left.used
  most : left.used ≤ w.used + 128
  /-- The cookie may stand in a header. -/
  header : ∀ b ∈ Utf8.encode s.cookie, Exchange.inHeaderValue b = true

/-- The characters of a token are those of its numbers, and it leaves what they leave. -/
theorem random_eq (w : Words) :
    (random w).1.id.toList = (w.manyBelow alphabetSize randomLength).1.map letter ∧
      (random w).2 = (w.manyBelow alphabetSize randomLength).2 := by
  unfold random
  generalize w.manyBelow alphabetSize randomLength = drawn
  obtain ⟨is, left⟩ := drawn
  exact ⟨String.toList_ofList, rfl⟩

theorem isRandom_random (w : Words) : IsRandom w (random w).1 (random w).2 := by
  obtain ⟨spelled, left⟩ := random_eq w
  have letters : ∀ c ∈ (random w).1.id.toList, IsLetter c := by
    rw [spelled]
    intro c listed
    obtain ⟨i, drawn, rfl⟩ := List.mem_map.mp listed
    exact isLetter_letter (Words.manyBelow_lt (by decide) randomLength w i drawn)
  obtain ⟨stream, least, most⟩ := Words.words_manyBelow alphabetSize randomLength w
  rw [← left] at stream least most
  refine ⟨?_, letters, stream, least, most, ?_⟩
  · rw [spelled, List.length_map, Words.length_manyBelow]
    rfl
  · rw [forall_inHeaderValue_cookie]
    intro c listed
    exact (letters c listed).not_isBarred

/-- Every token of the right length and alphabet is drawn from some stream: from one that is aimed at its
characters, one word for each. -/
theorem exists_random {id : String} (size : id.toList.length = 64)
    (letters : ∀ c ∈ id.toList, 'a' ≤ c ∧ c ≤ '{') :
    ∃ stream, (random (.start stream)).1 = ⟨id⟩ := by
  obtain ⟨is, small, spelled⟩ : ∃ is : List ℕ, (∀ i ∈ is, i < alphabetSize) ∧ is.map letter = id.toList := by
    generalize id.toList = cs at letters
    induction cs with
    | nil => exact ⟨[], List.forall_mem_nil _, rfl⟩
    | cons c cs ih =>
      obtain ⟨first, later⟩ := List.forall_mem_cons.mp letters
      obtain ⟨i, inside, same⟩ := exists_letter first
      obtain ⟨is, small, spelled⟩ := ih later
      exact ⟨i :: is, List.forall_mem_cons.mpr ⟨inside, small⟩, by rw [List.map_cons, same, spelled]⟩
  have count : is.length = randomLength := by
    rw [← List.length_map letter, spelled, size]
    rfl
  let stream : ℕ → UInt64 := fun k => Words.aim alphabetSize (is[k]?.getD 0)
  have drawn : ((Words.start stream).manyBelow alphabetSize is.length).1 = is := by
    apply Words.manyBelow_of_aim (by decide) small
    intro k i found
    show Words.aim alphabetSize (is[0 + k]?.getD 0) = Words.aim alphabetSize i
    rw [Nat.zero_add, found, Option.getD_some]
  refine ⟨stream, ?_⟩
  have same : (random (.start stream)).1.id.toList = id.toList := by
    rw [(random_eq _).1, ← count, drawn, spelled]
  generalize (random (.start stream)).1 = s at same
  obtain ⟨text⟩ := s
  exact congrArg Session.mk (String.toList_inj.mp same)

end Session

/-! ## Terms -/

namespace Bot

/-- The search for a term: it ends without a URL, or is an exchange. -/
def searchFor (bot : Bot) (backend : Backend) (term : String) (p : Progress) :
    Except Error Unit × Progress :=
  match bot.searchUrl term with
  | .error f => (.error (.url f), p)
  | .ok url =>
    exchange (p.note .info ("Making request " ++ url.text)) backend .get url [bot.cookieField] []
      "Request done"

/-- From a place in a stream of words a bot picks the entry at an index of its queries, with one word or
two, and searches for that. -/
structure Picks (bot : Bot) (w : Words) (i : ℕ) (left : Words) : Prop where
  drawn : w.below bot.conf.queries.length = (i, left)
  inside : i < bot.conf.queries.length
  /-- The second word is for products whose lower half is within the number of queries of its end. -/
  words : (2 ^ 32 - bot.conf.queries.length < w.low * bot.conf.queries.length % 2 ^ 32 ∧
      left = ⟨w.stream, w.used + 2⟩) ∨
    (w.low * bot.conf.queries.length % 2 ^ 32 ≤ 2 ^ 32 - bot.conf.queries.length ∧
      left = ⟨w.stream, w.used + 1⟩)
  search : ∀ (backend : Backend) (p : Progress), p.words = w → bot.makeRequest backend p =
    bot.searchFor backend bot.conf.queries[i] { p with words := left }

variable {bot : Bot}

/-- A search is for what is drawn. -/
theorem picks_drawn (some_query : bot.conf.queries ≠ []) (w : Words) :
    bot.Picks w (w.below bot.conf.queries.length).1 (w.below bot.conf.queries.length).2 := by
  have inside : (w.below bot.conf.queries.length).1 < bot.conf.queries.length :=
    Words.below_lt (List.length_pos_iff.mpr some_query) w
  refine ⟨rfl, inside, ?_, ?_⟩
  · rcases Words.words_below bot.conf.queries.length w with ⟨close, two⟩ | ⟨far, one⟩
    · exact .inl ⟨close, two⟩
    · exact .inr ⟨Nat.le_of_not_lt far, one⟩
  · rintro backend p rfl
    have term : bot.term? p.words = (some bot.conf.queries[(p.words.below bot.conf.queries.length).1],
        (p.words.below bot.conf.queries.length).2) := by
      rw [term?, if_neg (mt List.isEmpty_iff.mp some_query)]
      exact Prod.ext (List.getElem?_eq_getElem inside) rfl
    unfold makeRequest
    rw [term]
    rfl

/-- Chance has exactly these choices. A random token has 64 characters from `a` to `{`, takes 64 to 128
words and may stand in a header, and every such token is drawn from some stream. A search is for an entry
of the queries, with one word or two, and every index of the queries is picked from some stream. -/
theorem draws_cover :
    (∀ w : Words, Session.IsRandom w (Session.random w).1 (Session.random w).2) ∧
    (∀ id : String, id.toList.length = 64 → (∀ c ∈ id.toList, 'a' ≤ c ∧ c ≤ '{') →
      ∃ stream, (Session.random (.start stream)).1 = ⟨id⟩) ∧
    ∀ bot : Bot, bot.conf.queries ≠ [] → bot.conf.queries.length < 2 ^ 32 →
      (∀ w, ∃ i left, bot.Picks w i left) ∧
      ∀ i < bot.conf.queries.length, ∃ stream left, bot.Picks (.start stream) i left := by
  refine ⟨Session.isRandom_random, fun id => Session.exists_random, ?_⟩
  intro bot some_query few
  constructor
  · intro w
    exact ⟨_, _, picks_drawn some_query w⟩
  · intro i inside
    let stream : ℕ → UInt64 := fun k => if k = 0 then Words.aim bot.conf.queries.length i else 0
    have drawn : ((Words.start stream).below bot.conf.queries.length).1 = i :=
      Words.below_of_aim inside few rfl rfl
    have picks := picks_drawn some_query (.start stream)
    rw [drawn] at picks
    exact ⟨stream, _, picks⟩

/-- The last of all tokens, and a search among three terms whose first word is too close to the next index,
which the second word then carries it over to. -/
theorem draws_cover_carried :
    let id := String.ofList (List.replicate 64 '{')
    let root : Url := ⟨Url.http, some ⟨[], none, .domain (Ascii.bytes "localhost"), some 3010⟩,
      Ascii.bytes "/", true, none, none⟩
    let bot : Bot := ⟨root, ⟨"abc"⟩, ⟨["nebo", "se", "dva"], .empty⟩, ⟨2, 0⟩⟩
    let w := Words.start fun k => if k = 0 then 1431655765 else 4294967295
    (id.toList.length = 64 ∧ (∀ c ∈ id.toList, 'a' ≤ c ∧ c ≤ '{') ∧
      ∃ stream, (Session.random (.start stream)).1 = ⟨id⟩) ∧
    (bot.conf.queries ≠ [] ∧ bot.conf.queries.length < 2 ^ 32 ∧ w.low * 3 / 2 ^ 32 = 0 ∧
      bot.Picks w 1 ⟨w.stream, 2⟩ ∧ ∃ stream left, bot.Picks (.start stream) 2 left) := by
  intro id root bot w
  obtain ⟨-, tokens, searches⟩ := draws_cover
  have size : id.toList.length = 64 := by
    rw [String.toList_ofList, List.length_replicate]
  have letters : ∀ c ∈ id.toList, 'a' ≤ c ∧ c ≤ '{' := by
    rw [String.toList_ofList]
    intro c listed
    obtain rfl := List.eq_of_mem_replicate listed
    decide
  have some_query : bot.conf.queries ≠ [] := List.cons_ne_nil _ _
  have few : bot.conf.queries.length < 2 ^ 32 := by decide
  obtain ⟨picked, reached⟩ := searches bot some_query few
  refine ⟨⟨size, letters, tokens id size letters⟩, some_query, few, by decide, ?_, reached 2 (by decide)⟩
  have carried : (w.below bot.conf.queries.length).1 = 1 := by decide
  obtain ⟨i, left, picks⟩ := picked w
  obtain rfl : i = 1 := (congrArg Prod.fst picks.drawn).symm.trans carried
  rcases picks.words with ⟨-, rfl⟩ | ⟨far, -⟩
  · exact picks
  · exact absurd far (by decide)

end Bot

end GuideRig
