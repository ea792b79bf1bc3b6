/-
# GuideRig.Proofs.Http.Response -- what the reader takes for a response

After a head the reader is closed by a body that carries its own end, or it goes on until the connection
ends (`closes_afterHead_iff`). So the texts that close the reader from its beginning are the responses that
carry their own end, and the heads of those that do not (`closes_start_iff`). What a reader makes of all
that a connection delivers is told by the text that closes it and what comes after that. Taken together,
reading gives a status and content exactly where the grammar has a response with them (`read_eq_ok_iff`);
so there is one response at most in what a connection delivers, and less than the whole of one that carries
its own end is none (`read_of_cut`).
-/

import GuideRig.Proofs.Http.HeadReader

namespace GuideRig

open Ascii Http

namespace ResponseReader

variable {r e : ResponseReader} {line : StatusLine} {status : ℕ} {s body : Bytes}

theorem not_isOpen_untilClose {read : Bytes} : ¬ IsOpen (.body status read .untilClose) := nofun

/-! ## After a head -/

section AfterHead

variable {block : FieldBlock}

/-- Codings that end in the chunked one are some codings. -/
theorem codings_ne_nil (chunked : FieldBlock.isChunked block.codings = true) : block.codings ≠ [] := by
  intro none_given
  rw [none_given] at chunked
  cases chunked

theorem lengths_ne_nil {n : ℕ} (told : FieldBlock.length? block.lengths = some n) :
    block.lengths ≠ [] := by
  intro none_given
  rw [none_given] at told
  cases told

/-- What the last head of a response leads to: its end, chunks, the end of the connection or so many bytes. -/
theorem afterHead_eq_ok_iff (known : ¬ line.status < 100)
    (final : ¬ Status.isInterim line.status = true) : afterHead line block = .ok r ↔
    (Status.isBare line.status = true ∧ r = .complete line.status []) ∨
    (Status.isBare line.status = false ∧ line.old = false ∧
      FieldBlock.isChunked block.codings = true ∧ r = .body line.status [] (.chunked 0 .start)) ∨
    (IsEndless line block ∧ r = .body line.status [] .untilClose) ∨
    ∃ n, Status.isBare line.status = false ∧ block.codings = [] ∧
      FieldBlock.length? block.lengths = some n ∧ n ≤ FieldBlock.mostLength ∧
      r = if n = 0 then .complete line.status [] else .body line.status [] (.counted n) := by
  rw [afterHead, if_neg known, if_neg final]
  constructor
  · intro ended
    split at ended
    · rename_i bare
      exact .inl ⟨bare, (Except.ok.inj ended).symm⟩
    rename_i some_body
    rw [Bool.not_eq_true] at some_body
    split at ended
    · rename_i coded
      split at ended
      · cases ended
      rename_i new
      rw [Bool.not_eq_true] at new
      split at ended
      · rename_i chunked
        exact .inr (.inl ⟨some_body, new, chunked, (Except.ok.inj ended).symm⟩)
      · rename_i other
        have coded : block.codings ≠ [] := by simpa using coded
        exact .inr (.inr (.inl ⟨.coded some_body new coded (by simpa using other),
          (Except.ok.inj ended).symm⟩))
    rename_i uncoded
    have plain : block.codings = [] := by simpa using uncoded
    split at ended
    · rename_i untold
      exact .inr (.inr (.inl ⟨.untold some_body plain (List.isEmpty_iff.mp untold),
        (Except.ok.inj ended).symm⟩))
    split at ended
    · cases ended
    rename_i n told
    split at ended
    · cases ended
    rename_i fits
    refine .inr (.inr (.inr ⟨n, some_body, plain, told, Nat.not_lt.mp fits, ?_⟩))
    split at ended
    · rename_i empty
      rw [if_pos empty, ← Except.ok.inj ended]
    · rename_i due
      rw [if_neg due, ← Except.ok.inj ended]
  · rintro (⟨bare, rfl⟩ | ⟨some_body, new, chunked, rfl⟩ |
      ⟨⟨some_body, new, coded, other⟩ | ⟨some_body, plain, untold⟩, rfl⟩ |
      ⟨n, some_body, plain, told, fits, rfl⟩)
    · exact if_pos bare
    · simp [some_body, codings_ne_nil chunked, new, chunked]
    · simp [some_body, new, coded, other]
    · simp [some_body, plain, untold]
    · by_cases empty : n = 0 <;>
        simp [some_body, plain, lengths_ne_nil told, told, Nat.not_lt.mpr fits, empty]

/-- So many bytes, of which there may be none. -/
theorem closes_length_iff {n : ℕ} :
    Closes step IsOpen (if n = 0 then .complete status [] else .body status [] (.counted n)) s e ↔
      s.length = n ∧ e = .complete status s.reverse := by
  by_cases empty : n = 0
  · subst empty
    rw [if_pos rfl, closes_complete_iff]
    constructor
    · rintro ⟨rfl, rfl⟩
      exact ⟨rfl, rfl⟩
    · rintro ⟨size, rfl⟩
      obtain rfl := List.length_eq_zero_iff.mp size
      exact ⟨rfl, rfl⟩
  · rw [if_neg empty, closes_counted_iff empty, List.append_nil]

/-- What a body comes to is settled by the head: it carries its own end, and then the end of the bytes is
that of the body, or it ends with the connection, and then nothing is left to wait for. -/
theorem closes_afterHead_iff (known : ¬ line.status < 100)
    (final : ¬ Status.isInterim line.status = true) :
    (∃ r', afterHead line block = .ok r' ∧ Closes step IsOpen r' s e) ↔
      (∃ body, IsBody line block body s ∧ e = .complete line.status body.reverse) ∨
        IsEndless line block ∧ s = [] ∧ e = .body line.status [] .untilClose := by
  simp only [afterHead_eq_ok_iff known final]
  constructor
  · rintro ⟨_, ⟨bare, rfl⟩ | ⟨some_body, new, chunked, rfl⟩ | ⟨endless, rfl⟩ |
      ⟨n, some_body, plain, told, fits, rfl⟩, closing⟩
    · obtain ⟨rfl, rfl⟩ := closes_complete_iff.mp closing
      exact .inl ⟨[], .bare bare, rfl⟩
    · obtain ⟨extended, content, chunks, fit, rfl⟩ := (closes_chunks_iff (by decide)).mp closing
      rw [Nat.zero_add] at fit
      exact .inl ⟨content, .chunked some_body new chunked chunks fit, by rw [List.append_nil]⟩
    · exact .inr ⟨endless, (closes_of_not_open not_isOpen_untilClose).mp closing⟩
    · obtain ⟨rfl, rfl⟩ := closes_length_iff.mp closing
      exact .inl ⟨s, .counted some_body plain told fits, rfl⟩
  · rintro (⟨body, wire, rfl⟩ | ⟨endless, rfl, rfl⟩)
    · cases wire with
      | bare bare => exact ⟨_, .inl ⟨bare, rfl⟩, closes_complete_iff.mpr ⟨rfl, rfl⟩⟩
      | chunked some_body new chunked chunks fit =>
        refine ⟨_, .inr (.inl ⟨some_body, new, chunked, rfl⟩), (closes_chunks_iff (by decide)).mpr
          ⟨_, body, chunks, by rwa [Nat.zero_add], by rw [List.append_nil]⟩⟩
      | counted some_body plain told fits =>
        exact ⟨_, .inr (.inr (.inr ⟨_, some_body, plain, told, fits, rfl⟩)),
          closes_length_iff.mpr ⟨rfl, rfl⟩⟩
    · exact ⟨_, .inr (.inr (.inl ⟨endless, rfl⟩)), .here not_isOpen_untilClose⟩

end AfterHead

/-! ## Heads and bodies -/

/-- An interim head leads back to where the reader began. -/
theorem afterHead_of_isInterim {block : FieldBlock} (interim : Status.isInterim line.status = true) :
    afterHead line block = .ok start := by
  have known : ¬ line.status < 100 := by
    simp only [Status.isInterim, Bool.and_eq_true, decide_eq_true_eq] at interim
    omega
  rw [afterHead, if_neg known, if_pos interim]

/-- The reader is closed by the responses that carry their own end, by the heads of those that go on with
the connection, and by nothing else. -/
theorem closes_start_iff : Closes step IsOpen start s e ↔
    (∃ status body, IsMessage status body s ∧ e = .complete status body.reverse) ∨
      ∃ status, IsEndlessHead status s ∧ e = .body status [] .untilClose := by
  constructor
  · intro h
    -- by the bytes that are left: after an interim head the reader stands where it began
    induction size : s.length using Nat.strongRecOn generalizing s with
    | _ n ih =>
      obtain ⟨line, block, head, rest, r', rfl, is_head, ended, closing⟩ := closes_head_iff.mp h
      by_cases unknown : line.status < 100
      · rw [afterHead, if_pos unknown] at ended
        cases ended
      by_cases interim : Status.isInterim line.status = true
      · rw [afterHead_of_isInterim interim] at ended
        obtain rfl := Except.ok.inj ended
        have shorter : rest.length < n := by
          have some_byte := is_head.length_pos
          rw [List.length_append] at size
          omega
        obtain ⟨status, body, message, rfl⟩ | ⟨status, heads, rfl⟩ := ih _ shorter closing rfl
        · exact .inl ⟨status, body, .interim is_head interim message, rfl⟩
        · exact .inr ⟨status, .interim is_head interim heads, rfl⟩
      · have final : Status.isInterim line.status = false := by simpa using interim
        obtain ⟨body, wire, rfl⟩ | ⟨endless, rfl, rfl⟩ :=
          (closes_afterHead_iff unknown interim).mp ⟨r', ended, closing⟩
        · exact .inl ⟨_, body, .final is_head rfl (Nat.not_lt.mp unknown) final wire, rfl⟩
        · rw [List.append_nil]
          exact .inr ⟨_, .final is_head rfl (Nat.not_lt.mp unknown) final endless, rfl⟩
  · rintro (⟨status, body, message, rfl⟩ | ⟨status, heads, rfl⟩)
    · induction message with
      | interim is_head interim _ ih =>
        exact closes_head_iff.mpr ⟨_, _, _, _, start, rfl, is_head, afterHead_of_isInterim interim, ih⟩
      | final is_head same known final is_body =>
        subst same
        obtain ⟨r', ended, closing⟩ := (closes_afterHead_iff (Nat.not_lt.mpr known)
          (by simpa using final)).mpr (.inl ⟨body, is_body, rfl⟩)
        exact closes_head_iff.mpr ⟨_, _, _, _, r', rfl, is_head, ended, closing⟩
    · induction heads with
      | interim is_head interim _ ih =>
        exact closes_head_iff.mpr ⟨_, _, _, _, start, rfl, is_head, afterHead_of_isInterim interim, ih⟩
      | @final line block head is_head same known final endless =>
        subst same
        obtain ⟨r', ended, closing⟩ := (closes_afterHead_iff (Nat.not_lt.mpr known)
          (by simpa using final)).mpr (.inr ⟨endless, rfl, rfl⟩)
        exact closes_head_iff.mpr ⟨line, block, head, [], r', by simp, is_head, ended, closing⟩

/-- The reader comes to completion by the responses that carry their own end, and by nothing else. -/
theorem closes_start_iff_isMessage :
    Closes step IsOpen start s (.complete status body.reverse) ↔ IsMessage status body s := by
  rw [closes_start_iff]
  constructor
  · rintro (⟨status', body', message, same⟩ | ⟨_, _, ⟨⟩⟩)
    obtain ⟨rfl, turned⟩ := ResponseReader.complete.inj same
    obtain rfl := List.reverse_inj.mp turned
    exact message
  · exact fun message => .inl ⟨status, body, message, rfl⟩

/-! ## Runs -/

theorem run_cons_of_step {b : UInt8} {r' : ResponseReader} (one : r.step b = .ok r') (s : Bytes) :
    r.run (b :: s) = r'.run s := by
  rw [run, one]

/-- A text that closes the reader takes it to where it closes. -/
theorem run_append_of_closes (h : Closes step IsOpen r s e) (rest : Bytes) :
    r.run (s ++ rest) = e.run rest := by
  induction h with
  | here => rfl
  | cons _ one _ ih => rw [List.cons_append, run_cons_of_step one, ih]

theorem run_of_closes (h : Closes step IsOpen r s e) : r.run s = .ok e := by
  have whole := run_append_of_closes h []
  rwa [List.append_nil] at whole

/-- A run that comes to a state that is not open has been closed on its way, perhaps before its last byte. -/
theorem exists_closes_of_run (h : r.run s = .ok e) (closed : ¬ IsOpen e) :
    ∃ front rest mid, s = front ++ rest ∧ Closes step IsOpen r front mid ∧ mid.run rest = .ok e := by
  induction s generalizing r with
  | nil =>
    obtain rfl := Except.ok.inj h
    exact ⟨[], [], r, rfl, .here closed, rfl⟩
  | cons b s ih =>
    by_cases isOpen : IsOpen r
    · cases one : r.step b with
      | error f =>
        rw [run, one] at h
        cases h
      | ok r' =>
        rw [run_cons_of_step one] at h
        obtain ⟨front, rest, mid, rfl, closing, after⟩ := ih h
        exact ⟨b :: front, rest, mid, rfl, .cons isOpen one closing, after⟩
    · exact ⟨[], b :: s, r, rfl, .here isOpen, h⟩

/-- Until the last byte is there, the reader waits in a state in which the connection must not end. -/
theorem exists_run_of_cut (h : Closes step IsOpen r s e) {cut : Bytes} (begins : cut <+: s)
    (short : cut ≠ s) : ∃ r', r.run cut = .ok r' ∧ IsOpen r' := by
  induction h generalizing cut with
  | here => exact absurd (List.prefix_nil.mp begins) short
  | @cons r r' e b s isOpen one _ ih =>
    cases cut with
    | nil => exact ⟨r, rfl, isOpen⟩
    | cons a cut =>
      obtain ⟨rfl, behind⟩ := List.cons_prefix_cons.mp begins
      rw [run_cons_of_step one]
      exact ih behind fun whole => short (congrArg _ whole)

/-- Closing is nothing else than that. -/
theorem closes_iff : Closes step IsOpen r s e ↔ r.run s = .ok e ∧ ¬ IsOpen e ∧
    ∀ cut, cut <+: s → cut ≠ s → ∃ r', r.run cut = .ok r' ∧ IsOpen r' := by
  constructor
  · intro h
    exact ⟨run_of_closes h, h.end_not_open, fun _ => exists_run_of_cut h⟩
  · rintro ⟨whole, closed, before⟩
    obtain ⟨front, rest, mid, rfl, closing, after⟩ := exists_closes_of_run whole closed
    cases rest with
    | nil =>
      obtain rfl := Except.ok.inj after
      rwa [List.append_nil]
    | cons b rest =>
      -- what closes the reader already would be a cut, and its state open
      obtain ⟨mid', reached, isOpen⟩ := before front (List.prefix_append front _) (by simp)
      obtain rfl := Except.ok.inj ((run_of_closes closing).symm.trans reached)
      exact absurd isOpen closing.end_not_open

/-- A text is a response that carries its own end exactly if it takes the reader to completion with its
last byte and not before. -/
theorem isMessage_iff : IsMessage status body s ↔ start.run s = .ok (.complete status body.reverse) ∧
    ∀ cut, cut <+: s → cut ≠ s → ∃ r, start.run cut = .ok r ∧ IsOpen r := by
  rw [← closes_start_iff_isMessage, closes_iff]
  simp [not_isOpen_complete]

/-! ## Reading -/

theorem run_complete (rest : Bytes) :
    run (.complete status body) rest = .ok (.complete status body) := by
  induction rest with
  | nil => rfl
  | cons b rest ih => exact ih

theorem run_untilClose {read : Bytes} (rest : Bytes) :
    run (.body status read .untilClose) rest = .ok (.body status (rest.reverse ++ read) .untilClose) := by
  induction rest generalizing read with
  | nil => rfl
  | cons b rest ih =>
    have one : step (.body status read .untilClose) b = .ok (.body status (b :: read) .untilClose) := rfl
    rw [run_cons_of_step one, ih]
    simp

/-- Reading gives a status and content where the grammar has a response with them, and nowhere else. -/
theorem read_eq_ok_iff : read s = .ok (status, body) ↔ IsResponse status body s := by
  constructor
  · intro h
    rw [read] at h
    split at h
    · rename_i r reached
      have closed : ¬ IsOpen r := by
        rintro ⟨f, fault⟩
        rw [fault] at h
        cases h
      obtain ⟨front, rest, mid, rfl, closing, after⟩ := exists_closes_of_run reached closed
      obtain ⟨status', body', message, rfl⟩ | ⟨status', heads, rfl⟩ := closes_start_iff.mp closing
      · rw [run_complete] at after
        obtain rfl := Except.ok.inj after
        obtain ⟨rfl, rfl⟩ := Prod.mk.inj (Except.ok.inj h)
        rw [List.reverse_reverse]
        exact .ended message
      · rw [run_untilClose, List.append_nil] at after
        obtain rfl := Except.ok.inj after
        obtain ⟨rfl, rfl⟩ := Prod.mk.inj (Except.ok.inj h)
        rw [List.reverse_reverse]
        exact .endless heads
    · cases h
  · rintro (⟨message⟩ | ⟨heads⟩)
    · have closing := closes_start_iff_isMessage.mpr message
      rw [read, run_append_of_closes closing, run_complete]
      show Except.ok (status, body.reverse.reverse) = _
      rw [List.reverse_reverse]
    · have closing := closes_start_iff.mpr (.inr ⟨status, heads, rfl⟩)
      rw [read, run_append_of_closes closing, run_untilClose]
      show Except.ok (status, (body.reverse ++ []).reverse) = _
      rw [List.append_nil, List.reverse_reverse]

/-- A trailer that holds no field spoils a body whose chunks are all there. -/
example : read (bytes "HTTP/1.1 200 \r\nTransfer-Encoding: chunked\r\n\r\n2\r\nok\r\n0\r\nnow\r\n\r\n") =
    .error .badBody := by
  decide +kernel

/-- Less of a response that carries its own end is a fault, wherever it stops. -/
theorem read_of_cut (message : IsMessage status body s) {cut : Bytes} (begins : cut <+: s)
    (short : cut ≠ s) : ∃ f, read cut = .error f := by
  have closing := closes_start_iff_isMessage.mpr message
  obtain ⟨r, reached, f, fault⟩ := exists_run_of_cut closing begins short
  exact ⟨f, by rw [read, reached]; exact fault⟩

end ResponseReader

/-- There is one response at most in what a connection delivers. -/
theorem Http.IsResponse.unique {status status' : ℕ} {content content' s : Bytes}
    (h : IsResponse status content s) (h' : IsResponse status' content' s) :
    status = status' ∧ content = content' := by
  have same := (ResponseReader.read_eq_ok_iff.mpr h).symm.trans (ResponseReader.read_eq_ok_iff.mpr h')
  exact Prod.mk.inj (Except.ok.inj same)

end GuideRig
