/-
# GuideRig.Proofs.Http.BodyReader -- the texts that bodies end with

Which texts close the reader is told here for each state of a body that carries its own end, by the part
of the grammar that the state is in: so many bytes for a length (`closes_counted_iff`), and a row of
chunks with the trailer after the empty one (`closes_chunks_iff`). A chunk is a line with its size, its
bytes and the end of a line, and each of these has a lemma of its own. A trailer is read to its end first
and looked into then, so that its lemmas come in two layers as well: lines (`closes_last_iff`), and what
they hold (`isWhole_grown_iff`).

The limits on extensions and trailers are kept at every byte. Since both only ever grow, that comes down to
a bound on what there is of them in the end.
-/

import GuideRig.Proofs.Http.FieldReader
import GuideRig.Proofs.Text.Decimal
import GuideRig.Proofs.Text.Percent

namespace GuideRig

open Ascii Http

namespace Trailer

variable {t t' : Trailer} {b : UInt8}

/-- A trailer after more bytes, and more lines that have ended. -/
def grown (t : Trailer) (s : Bytes) (n : ℕ) : Trailer := ⟨s.reverse ++ t.read, t.lines + n⟩

/-- A trailer keeps to the limit on its bytes. -/
def Fits (t : Trailer) : Prop := t.read.length < mostBytes

theorem grown_grown (s s' : Bytes) (n n' : ℕ) :
    (t.grown s n).grown s' n' = t.grown (s ++ s') (n + n') := by
  simp [grown, Nat.add_assoc]

/-- What grows within the limit has been within it before. -/
theorem Fits.of_grown {s : Bytes} {n : ℕ} (h : (t.grown s n).Fits) : t.Fits := by
  simp only [Fits, grown, List.length_append] at h ⊢
  omega

theorem push_eq_some_iff : t.push b = some t' ↔ (t.grown [b] 0).Fits ∧ t' = t.grown [b] 0 := by
  simp [push, Fits, grown, eq_comm]

theorem endLine_eq_some_iff : t.endLine = some t' ↔
    t.lines < FieldBlock.most ∧ (t.grown [byte '\n'] 1).Fits ∧ t' = t.grown [byte '\n'] 1 := by
  simp [endLine, push, Fits, grown, eq_comm]

theorem lines_of_isWhole (h : t.isWhole = true) : t.lines < FieldBlock.most := by
  rw [isWhole, Bool.and_eq_true, decide_eq_true_eq] at h
  exact h.1

end Trailer

namespace ResponseReader

/-- A state in which the end of the connection is a fault. -/
def IsOpen (r : ResponseReader) : Prop := ∃ f, r.finish = .error f

variable {status : ℕ} {read s : Bytes} {e : ResponseReader}

theorem not_isOpen_complete : ¬ IsOpen (.complete status read) := nofun

theorem isOpen_counted (n : ℕ) : IsOpen (.body status read (.counted n)) := ⟨_, rfl⟩

theorem isOpen_chunked (x : ℕ) (p : ChunkPhase) : IsOpen (.body status read (.chunked x p)) := ⟨_, rfl⟩

theorem closes_complete_iff :
    Closes step IsOpen (.complete status read) s e ↔ s = [] ∧ e = .complete status read :=
  closes_of_not_open not_isOpen_complete

/-! ## Lengths -/

/-- A body with a length is the bytes that are due. -/
theorem closes_counted_iff {n : ℕ} (due : n ≠ 0) :
    Closes step IsOpen (.body status read (.counted n)) s e ↔
      s.length = n ∧ e = .complete status (s.reverse ++ read) := by
  induction n generalizing read s with
  | zero => exact absurd rfl due
  | succ n ih =>
    cases s with
    | nil => exact ⟨fun h => absurd h (not_closes_nil (isOpen_counted _)), fun h => nomatch h.1⟩
    | cons b s =>
      rw [closes_cons_iff (isOpen_counted _)]
      cases n with
      | zero =>
        have one : (ResponseReader.body status read (.counted 1)).step b =
            .ok (.complete status (b :: read)) := rfl
        simp +contextual [one, closes_complete_iff]
      | succ n =>
        have one : (ResponseReader.body status read (.counted (n + 2))).step b =
            .ok (.body status (b :: read) (.counted (n + 1))) := rfl
        simp [one, ih]

/-! ## Sizes -/

variable {x y : ℕ}

/-- The phase after a size and the end of its line. -/
def afterSize (n : ℕ) : ChunkPhase := if n = 0 then .last .start else .data n

/-- A phase in which one byte of the framing is due. -/
theorem closes_framing_iff {p q : ChunkPhase} {due : UInt8}
    (one : ∀ b, p.step x b = if b = due then some ⟨false, some (.chunked y q)⟩ else none) :
    Closes step IsOpen (.body status read (.chunked x p)) s e ↔
      ∃ rest, s = due :: rest ∧ Closes step IsOpen (.body status read (.chunked y q)) rest e := by
  refine closes_due_iff (isOpen_chunked _ _) .badBody fun b => ?_
  by_cases here : b = due <;> simp [step, stepBody, BodyPhase.step, one, here]

theorem closes_sizeEnd_iff {n : ℕ} :
    Closes step IsOpen (.body status read (.chunked x (.sizeEnd n))) s e ↔ ∃ rest, s = byte '\n' :: rest ∧
      Closes step IsOpen (.body status read (.chunked x (afterSize n))) rest e := by
  refine closes_framing_iff fun b => ?_
  by_cases empty : n = 0 <;> simp [ChunkPhase.step, afterSize, empty]

theorem step_extension {n : ℕ} {b : UInt8} (within : b ≠ byte '\r' ∧ b ≠ byte '\n') :
    step (.body status read (.chunked x (.extension n))) b =
      if x + 1 < ChunkPhase.mostExtended then .ok (.body status read (.chunked (x + 1) (.extension n)))
      else .error .badBody := by
  by_cases room : x + 1 < ChunkPhase.mostExtended <;>
    simp [step, stepBody, BodyPhase.step, ChunkPhase.step, within, room]

/-- Words after a semicolon go on to the end of the line, and are counted. -/
theorem closes_extension_iff {n : ℕ} (room : x < ChunkPhase.mostExtended) :
    Closes step IsOpen (.body status read (.chunked x (.extension n))) s e ↔
      ∃ words rest, s = words ++ crlf ++ rest ∧ (∀ b ∈ words, b ≠ byte '\r' ∧ b ≠ byte '\n') ∧
        x + words.length < ChunkPhase.mostExtended ∧
        Closes step IsOpen (.body status read (.chunked (x + words.length) (afterSize n))) rest e := by
  constructor
  · intro h
    induction s generalizing x with
    | nil => exact absurd h (not_closes_nil (isOpen_chunked _ _))
    | cons b s ih =>
      obtain ⟨r', one, after⟩ := (closes_cons_iff (isOpen_chunked _ _)).mp h
      by_cases first : b = byte '\r'
      · subst first
        obtain rfl := Except.ok.inj one
        obtain ⟨rest, rfl, closing⟩ := closes_sizeEnd_iff.mp after
        exact ⟨[], rest, rfl, nofun, room, closing⟩
      by_cases second : b = byte '\n'
      · subst second
        cases one
      · rw [step_extension ⟨first, second⟩] at one
        split at one
        · rename_i more
          obtain rfl := Except.ok.inj one
          obtain ⟨words, rest, rfl, free, fit, closing⟩ := ih more after
          have counted : x + (b :: words).length = x + 1 + words.length := by
            rw [List.length_cons]
            omega
          rw [← counted] at fit closing
          exact ⟨b :: words, rest, rfl, List.forall_mem_cons.mpr ⟨⟨first, second⟩, free⟩, fit, closing⟩
        · cases one
  · rintro ⟨words, rest, rfl, free, fit, closing⟩
    induction words generalizing x with
    | nil => exact .cons (isOpen_chunked _ _) rfl (closes_sizeEnd_iff.mpr ⟨rest, rfl, closing⟩)
    | cons b words ih =>
      obtain ⟨within, free⟩ := List.forall_mem_cons.mp free
      have counted : x + (b :: words).length = x + 1 + words.length := by
        rw [List.length_cons]
        omega
      rw [counted] at fit closing
      have more : x + 1 < ChunkPhase.mostExtended := by omega
      refine .cons (isOpen_chunked _ _) ?_ (ih more free fit closing)
      rw [step_extension within, if_pos more]

/-- What may follow the digits of a size on their line. -/
theorem closes_sizeGap_iff {n : ℕ} (room : x < ChunkPhase.mostExtended) :
    Closes step IsOpen (.body status read (.chunked x (.sizeGap n))) s e ↔
      ∃ gaps extended extension rest, s = gaps ++ extension ++ crlf ++ rest ∧
        (∀ b ∈ gaps, FieldBlock.isGap b = true) ∧ IsExtension extended extension ∧
        x + extended < ChunkPhase.mostExtended ∧
        Closes step IsOpen (.body status read (.chunked (x + extended) (afterSize n))) rest e := by
  have round : ∀ b, FieldBlock.isGap b = true →
      step (.body status read (.chunked x (.sizeGap n))) b =
        .ok (.body status read (.chunked x (.sizeGap n))) := by
    intro b gap
    simp [step, stepBody, BodyPhase.step, ChunkPhase.step, gap]
  have out : ∀ b r', ¬ FieldBlock.isGap b = true →
      step (.body status read (.chunked x (.sizeGap n))) b = .ok r' →
        (b = byte ';' ∧ r' = .body status read (.chunked x (.extension n))) ∨
          b = byte '\r' ∧ r' = .body status read (.chunked x (.sizeEnd n)) := by
    intro b r' gap left
    by_cases words : b = byte ';'
    · subst words
      exact .inl ⟨rfl, (Except.ok.inj left).symm⟩
    · by_cases first : b = byte '\r'
      · subst first
        exact .inr ⟨rfl, (Except.ok.inj left).symm⟩
      · simp [step, stepBody, BodyPhase.step, ChunkPhase.step, gap, words, first] at left
  rw [closes_stay (isOpen_chunked _ _) round]
  constructor
  · rintro ⟨gaps, b, rest, r', rfl, all, ending, left, after⟩
    obtain ⟨rfl, rfl⟩ | ⟨rfl, rfl⟩ := out b r' ending left
    · obtain ⟨words, rest, rfl, free, fit, closing⟩ := (closes_extension_iff room).mp after
      exact ⟨gaps, _, byte ';' :: words, rest, by simp, all, .words free, fit, closing⟩
    · obtain ⟨rest, rfl, closing⟩ := closes_sizeEnd_iff.mp after
      exact ⟨gaps, 0, [], rest, by simp [crlf], all, .nil, room, closing⟩
  · rintro ⟨gaps, _, _, rest, rfl, all, _ | @⟨words, free⟩, fit, after⟩
    · refine ⟨gaps, byte '\r', byte '\n' :: rest, _, by simp [crlf], all, by decide, rfl, ?_⟩
      exact closes_sizeEnd_iff.mpr ⟨rest, rfl, after⟩
    · refine ⟨gaps, byte ';', words ++ crlf ++ rest, _, by simp, all, by decide, rfl, ?_⟩
      exact (closes_extension_iff room).mpr ⟨words, rest, rfl, free, fit, after⟩

/-- A byte that is no digit has one meaning after a size, whether or not a gap has come before it. -/
theorem step_size_of_valueless {n : ℕ} {b : UInt8} (valueless : hexValue? b = none) :
    step (.body status read (.chunked x (.size n))) b =
      step (.body status read (.chunked x (.sizeGap n))) b := by
  simp only [step, stepBody, BodyPhase.step, ChunkPhase.step, valueless]

/-- After a gap there are no more digits. -/
theorem valueless_of_step_sizeGap {n : ℕ} {b : UInt8} {r' : ResponseReader}
    (left : step (.body status read (.chunked x (.sizeGap n))) b = .ok r') : hexValue? b = none := by
  cases digit : hexValue? b with
  | none => rfl
  | some d =>
    have other : ∀ c, hexValue? c = none → b ≠ c := fun c valueless =>
      ((hexValue?_eq_some_iff.mp digit).ne valueless).symm
    have gap : FieldBlock.isGap b = false := by
      rw [FieldBlock.isGap, beq_eq_false_iff_ne.mpr (other _ (by decide)),
        beq_eq_false_iff_ne.mpr (other _ (by decide)), Bool.or_false]
    have words : b ≠ byte ';' := other _ (by decide)
    have first : b ≠ byte '\r' := other _ (by decide)
    simp [step, stepBody, BodyPhase.step, ChunkPhase.step, gap, words, first] at left

theorem step_size_of_digit {n d : ℕ} {b : UInt8} (digit : hexValue? b = some d) {r' : ResponseReader} :
    step (.body status read (.chunked x (.size n))) b = .ok r' ↔
      n * 16 + d < twoTo 64 ∧ r' = .body status read (.chunked x (.size (n * 16 + d))) := by
  simp only [step, stepBody, BodyPhase.step, ChunkPhase.step, digit]
  by_cases fits : n * 16 + d < twoTo 64 <;> simp [fits, eq_comm]

theorem valueFrom_cons_of_value {n v : ℕ} {d : UInt8} (digit : hexValue? d = some v) (digits : Bytes) :
    valueFrom 16 n (d :: digits) = valueFrom 16 (n * 16 + v) digits := by
  rw [valueFrom, List.foldl_cons, digit, Option.getD_some, valueFrom]

/-- More digits of a size, which is held against the limit at each of them. -/
theorem closes_size_iff {n : ℕ} (fits : n < twoTo 64) :
    Closes step IsOpen (.body status read (.chunked x (.size n))) s e ↔
      ∃ digits rest, s = digits ++ rest ∧ (∀ d ∈ digits, (hexValue? d).isSome) ∧
        valueFrom 16 n digits < twoTo 64 ∧ Closes step IsOpen
          (.body status read (.chunked x (.sizeGap (valueFrom 16 n digits)))) rest e := by
  constructor
  · intro h
    induction s generalizing n with
    | nil => exact absurd h (not_closes_nil (isOpen_chunked _ _))
    | cons b s ih =>
      obtain ⟨r', one, after⟩ := (closes_cons_iff (isOpen_chunked _ _)).mp h
      cases digit : hexValue? b with
      | none =>
        rw [step_size_of_valueless digit] at one
        exact ⟨[], b :: s, rfl, nofun, fits, .cons (isOpen_chunked _ _) one after⟩
      | some v =>
        obtain ⟨fits, rfl⟩ := (step_size_of_digit digit).mp one
        obtain ⟨digits, rest, rfl, all, fits, closing⟩ := ih fits after
        rw [← valueFrom_cons_of_value digit] at fits closing
        exact ⟨b :: digits, rest, rfl, List.forall_mem_cons.mpr ⟨by rw [digit]; rfl, all⟩, fits, closing⟩
  · rintro ⟨digits, rest, rfl, all, fits, after⟩
    induction digits generalizing n with
    | nil =>
      obtain ⟨b, rest, r', rfl, one, closing⟩ := (closes_step_iff (isOpen_chunked _ _)).mp after
      refine .cons (isOpen_chunked _ _) ?_ closing
      rw [step_size_of_valueless (valueless_of_step_sizeGap one)]
      exact one
    | cons d digits ih =>
      obtain ⟨first, all⟩ := List.forall_mem_cons.mp all
      obtain ⟨v, digit⟩ := Option.isSome_iff_exists.mp first
      rw [valueFrom_cons_of_value digit] at fits after
      have small := Nat.lt_of_le_of_lt (le_valueFrom (by decide) _ digits) fits
      exact .cons (isOpen_chunked _ _) ((step_size_of_digit digit).mpr ⟨small, rfl⟩)
        (ih small all fits after)

/-- The line of a size. -/
theorem closes_sizeLine_iff (room : x < ChunkPhase.mostExtended) :
    Closes step IsOpen (.body status read (.chunked x .start)) s e ↔
      ∃ n extended line rest, s = line ++ rest ∧ IsSizeLine n extended line ∧
        x + extended < ChunkPhase.mostExtended ∧
        Closes step IsOpen (.body status read (.chunked (x + extended) (afterSize n))) rest e := by
  have single : ∀ {d : UInt8} {v : ℕ}, hexValue? d = some v → v < twoTo 64 := by
    intro d v digit
    exact Nat.lt_trans (hexValue?_eq_some_iff.mp digit).1 (by decide)
  rw [closes_step_iff (isOpen_chunked _ _)]
  constructor
  · rintro ⟨d, rest, r', rfl, one, after⟩
    cases digit : hexValue? d with
    | none => simp [step, stepBody, BodyPhase.step, ChunkPhase.step, digit] at one
    | some v =>
      simp only [step, stepBody, BodyPhase.step, ChunkPhase.step, digit, Option.bind_some] at one
      obtain rfl := Except.ok.inj one
      obtain ⟨digits, rest, rfl, all, fits, gapped⟩ := (closes_size_iff (single digit)).mp after
      obtain ⟨gaps, extended, extension, rest, rfl, space, extends_, fit, closing⟩ :=
        (closes_sizeGap_iff room).mp gapped
      have whole : valueFrom 16 0 (d :: digits) = valueFrom 16 v digits := by
        rw [valueFrom_cons_of_value digit, Nat.zero_mul, Nat.zero_add]
      rw [← whole] at fits closing
      refine ⟨_, extended, d :: digits ++ gaps ++ extension ++ crlf, rest, by simp, ?_, fit, closing⟩
      exact .mk (List.cons_ne_nil _ _) (List.forall_mem_cons.mpr ⟨by rw [digit]; rfl, all⟩) fits space
        extends_
  · rintro ⟨_, extended, _, rest, rfl, @⟨digits, gaps, extension, _, some_digit, all, fits, space,
      extends_⟩, fit, after⟩
    obtain ⟨d, digits, rfl⟩ := List.exists_cons_of_ne_nil some_digit
    obtain ⟨first, all⟩ := List.forall_mem_cons.mp all
    obtain ⟨v, digit⟩ := Option.isSome_iff_exists.mp first
    have whole : valueFrom 16 0 (d :: digits) = valueFrom 16 v digits := by
      rw [valueFrom_cons_of_value digit, Nat.zero_mul, Nat.zero_add]
    rw [whole] at fits after
    refine ⟨d, digits ++ gaps ++ extension ++ crlf ++ rest, .body status read (.chunked x (.size v)),
      by simp, ?_, ?_⟩
    · simp only [step, stepBody, BodyPhase.step, ChunkPhase.step, digit, Option.bind_some]
      rfl
    · refine (closes_size_iff (single digit)).mpr
        ⟨digits, gaps ++ extension ++ crlf ++ rest, by simp, all, fits, ?_⟩
      exact (closes_sizeGap_iff room).mpr ⟨gaps, _, extension, rest, rfl, space, extends_, fit, after⟩

/-! ## Bytes of chunks -/

/-- The end of the line after a chunk. -/
theorem closes_dataEnd_iff : Closes step IsOpen (.body status read (.chunked x .dataEnd)) s e ↔
    ∃ rest, s = crlf ++ rest ∧ Closes step IsOpen (.body status read (.chunked x .start)) rest e := by
  have second (rest : Bytes) : Closes step IsOpen (.body status read (.chunked x .dataLineEnd)) rest e ↔
      ∃ rest', rest = byte '\n' :: rest' ∧
        Closes step IsOpen (.body status read (.chunked x .start)) rest' e :=
    closes_framing_iff fun _ => rfl
  rw [@closes_framing_iff _ _ _ _ _ _ .dataEnd .dataLineEnd (byte '\r') fun _ => rfl]
  constructor
  · rintro ⟨_, rfl, after⟩
    obtain ⟨rest, rfl, closing⟩ := (second _).mp after
    exact ⟨rest, rfl, closing⟩
  · rintro ⟨rest, rfl, closing⟩
    exact ⟨_, rfl, (second _).mpr ⟨rest, rfl, closing⟩⟩

/-- The bytes of a chunk. -/
theorem closes_data_iff {n : ℕ} (due : n ≠ 0) :
    Closes step IsOpen (.body status read (.chunked x (.data n))) s e ↔
      ∃ data rest, s = data ++ rest ∧ data.length = n ∧ Closes step IsOpen
        (.body status (data.reverse ++ read) (.chunked x .dataEnd)) rest e := by
  have step_last (read : Bytes) (b : UInt8) :
      step (.body status read (.chunked x (.data 1))) b =
        .ok (.body status (b :: read) (.chunked x .dataEnd)) := rfl
  have step_more (read : Bytes) (n : ℕ) (b : UInt8) :
      step (.body status read (.chunked x (.data (n + 2)))) b =
        .ok (.body status (b :: read) (.chunked x (.data (n + 1)))) := rfl
  obtain ⟨n, rfl⟩ := Nat.exists_eq_succ_of_ne_zero due
  induction n generalizing read s with
  | zero =>
    rw [closes_step_iff (isOpen_chunked _ _)]
    constructor
    · rintro ⟨b, rest, r', rfl, one, after⟩
      obtain rfl := Except.ok.inj one
      exact ⟨[b], rest, rfl, rfl, after⟩
    · rintro ⟨data, rest, rfl, size, after⟩
      obtain ⟨b, rfl⟩ := List.length_eq_one_iff.mp size
      exact ⟨b, rest, _, rfl, step_last read b, after⟩
  | succ n ih =>
    rw [closes_step_iff (isOpen_chunked _ _)]
    constructor
    · rintro ⟨b, rest, r', rfl, one, after⟩
      obtain rfl := Except.ok.inj ((step_more read n b).symm.trans one)
      obtain ⟨data, rest, rfl, size, closing⟩ := (ih n.succ_ne_zero).mp after
      exact ⟨b :: data, rest, rfl, congrArg Nat.succ size, by simpa using closing⟩
    · rintro ⟨data, rest, rfl, size, after⟩
      obtain ⟨b, data, rfl⟩ := List.exists_cons_of_length_eq_add_one size
      refine ⟨b, data ++ rest, _, rfl, step_more read n b, (ih n.succ_ne_zero).mpr ?_⟩
      exact ⟨data, rest, rfl, Nat.succ.inj size, by simpa using after⟩

/-! ## Lines of trailers -/

variable {t : Trailer}

/-- A byte of a trailer leads on to the trailers that reading it may give. -/
theorem step_eq_ok_iff_of_bind {p : ChunkPhase} {b : UInt8} {read? : Option Trailer}
    {q : Trailer → ChunkPhase} {r' : ResponseReader}
    (one : p.step x b = read?.bind fun t => some ⟨false, some (.chunked x (q t))⟩) :
    step (.body status read (.chunked x p)) b = .ok r' ↔
      ∃ t, read? = some t ∧ r' = .body status read (.chunked x (q t)) := by
  simp only [step, stepBody, BodyPhase.step, one]
  cases read? <;> simp [eq_comm]

theorem step_last_iff {b : UInt8} {r' : ResponseReader} :
    step (.body status read (.chunked x (.last t))) b = .ok r' ↔ (t.grown [b] 0).Fits ∧
      r' = .body status read (.chunked x
        (if b = byte '\r' then .lastEnd (t.grown [b] 0) else .trailer (t.grown [b] 0))) := by
  rw [step_eq_ok_iff_of_bind (q := fun t => if b = byte '\r' then .lastEnd t else .trailer t) rfl]
  simp only [Trailer.push_eq_some_iff, and_assoc, exists_and_left, exists_eq_left]

theorem step_trailer_iff {b : UInt8} {r' : ResponseReader} :
    step (.body status read (.chunked x (.trailer t))) b = .ok r' ↔ (t.grown [b] 0).Fits ∧
      r' = .body status read (.chunked x
        (if b = byte '\r' then .trailerEnd (t.grown [b] 0) else .trailer (t.grown [b] 0))) := by
  rw [step_eq_ok_iff_of_bind (q := fun t => if b = byte '\r' then .trailerEnd t else .trailer t) rfl]
  simp only [Trailer.push_eq_some_iff, and_assoc, exists_and_left, exists_eq_left]

/-- The second half of the end of a line of a trailer. -/
theorem closes_trailerEnd_iff : Closes step IsOpen (.body status read (.chunked x (.trailerEnd t))) s e ↔
    ∃ rest, s = byte '\n' :: rest ∧ t.lines < FieldBlock.most ∧ (t.grown [byte '\n'] 1).Fits ∧
      Closes step IsOpen (.body status read (.chunked x (.last (t.grown [byte '\n'] 1)))) rest e := by
  rw [closes_step_iff (isOpen_chunked _ _)]
  constructor
  · rintro ⟨b, rest, r', rfl, one, after⟩
    by_cases second : b = byte '\n'
    · subst second
      obtain ⟨t', ended, rfl⟩ := (step_eq_ok_iff_of_bind (q := .last) rfl).mp one
      obtain ⟨few, fit, rfl⟩ := Trailer.endLine_eq_some_iff.mp ended
      exact ⟨rest, rfl, few, fit, after⟩
    · simp [step, stepBody, BodyPhase.step, ChunkPhase.step, second] at one
  · rintro ⟨rest, rfl, few, fit, after⟩
    have ended := Trailer.endLine_eq_some_iff.mpr ⟨few, fit, rfl⟩
    exact ⟨byte '\n', rest, _, rfl, (step_eq_ok_iff_of_bind (q := .last) rfl).mpr ⟨_, ended, rfl⟩, after⟩

/-- The rest of a line of a trailer. -/
theorem closes_trailer_iff : Closes step IsOpen (.body status read (.chunked x (.trailer t))) s e ↔
    ∃ line rest, s = line ++ crlf ++ rest ∧ byte '\r' ∉ line ∧ t.lines < FieldBlock.most ∧
      (t.grown (line ++ crlf) 1).Fits ∧
      Closes step IsOpen (.body status read (.chunked x (.last (t.grown (line ++ crlf) 1)))) rest e := by
  constructor
  · intro h
    induction s generalizing t with
    | nil => exact absurd h (not_closes_nil (isOpen_chunked _ _))
    | cons b s ih =>
      obtain ⟨r', one, after⟩ := (closes_cons_iff (isOpen_chunked _ _)).mp h
      obtain ⟨-, rfl⟩ := step_trailer_iff.mp one
      by_cases first : b = byte '\r'
      · rw [if_pos first] at after
        obtain ⟨rest, rfl, few, fit, closing⟩ := closes_trailerEnd_iff.mp after
        rw [Trailer.grown_grown, first] at fit closing
        exact ⟨[], rest, by rw [first]; rfl, nofun, few, fit, closing⟩
      · rw [if_neg first] at after
        obtain ⟨line, rest, rfl, free, few, fit, closing⟩ := ih after
        rw [Trailer.grown_grown] at fit closing
        exact ⟨b :: line, rest, rfl, List.not_mem_cons_of_ne_of_not_mem (Ne.symm first) free, few, fit,
          closing⟩
  · rintro ⟨line, rest, rfl, free, few, fit, closing⟩
    induction line generalizing t with
    | nil =>
      have halves : t.grown ([] ++ crlf) 1 = (t.grown [byte '\r'] 0).grown [byte '\n'] 1 :=
        (Trailer.grown_grown [byte '\r'] [byte '\n'] 0 1).symm
      rw [halves] at fit closing
      refine .cons (isOpen_chunked _ _) (step_trailer_iff.mpr ⟨fit.of_grown, rfl⟩) ?_
      rw [if_pos rfl]
      exact closes_trailerEnd_iff.mpr ⟨rest, rfl, few, fit, closing⟩
    | cons b line ih =>
      have first : t.grown (b :: line ++ crlf) 1 = (t.grown [b] 0).grown (line ++ crlf) 1 :=
        (Trailer.grown_grown [b] (line ++ crlf) 0 1).symm
      rw [List.mem_cons, not_or] at free
      rw [first] at fit closing
      refine .cons (isOpen_chunked _ _) (step_trailer_iff.mpr ⟨fit.of_grown, rfl⟩) ?_
      rw [if_neg (Ne.symm free.1)]
      exact ih free.2 few fit closing

/-! ## Trailers -/

theorem step_lastEnd_iff {b : UInt8} {r' : ResponseReader} :
    step (.body status read (.chunked x (.lastEnd t))) b = .ok r' ↔ b = byte '\n' ∧
      (t.grown [b] 0).Fits ∧ (t.grown [b] 0).isWhole = true ∧ r' = .complete status read := by
  simp only [step, stepBody, BodyPhase.step, ChunkPhase.step]
  by_cases second : b = byte '\n'
  · subst second
    rw [if_pos rfl]
    cases pushed : t.push (byte '\n') with
    | none =>
      have full : ¬ (t.grown [byte '\n'] 0).Fits := fun fit => by
        rw [Trailer.push_eq_some_iff.mpr ⟨fit, rfl⟩] at pushed
        cases pushed
      simp [full]
    | some t' =>
      obtain ⟨fit, rfl⟩ := Trailer.push_eq_some_iff.mp pushed
      rw [Option.bind_some]
      by_cases whole : (t.grown [byte '\n'] 0).isWhole = true
      · rw [if_pos whole]
        exact ⟨fun h => ⟨rfl, fit, whole, (Except.ok.inj h).symm⟩, fun h => by rw [h.2.2.2]; rfl⟩
      · rw [if_neg whole]
        exact ⟨nofun, fun h => absurd h.2.2.1 whole⟩
  · simp [second]

/-- The end of a trailer, where it is looked into. -/
theorem closes_lastEnd_iff : Closes step IsOpen (.body status read (.chunked x (.lastEnd t))) s e ↔
    s = [byte '\n'] ∧ (t.grown [byte '\n'] 0).Fits ∧ (t.grown [byte '\n'] 0).isWhole = true ∧
      e = .complete status read := by
  simp only [closes_step_iff (isOpen_chunked _ _), step_lastEnd_iff]
  constructor
  · rintro ⟨_, rest, _, rfl, ⟨rfl, fit, whole, rfl⟩, after⟩
    obtain ⟨rfl, rfl⟩ := closes_complete_iff.mp after
    exact ⟨rfl, fit, whole, rfl⟩
  · rintro ⟨rfl, fit, whole, rfl⟩
    exact ⟨_, [], _, rfl, ⟨rfl, fit, whole, rfl⟩, closes_complete_iff.mpr ⟨rfl, rfl⟩⟩

/-- After the empty chunk come lines and an empty one, and then they are looked into. -/
theorem closes_last_iff : Closes step IsOpen (.body status read (.chunked x (.last t))) s e ↔
    ∃ n lines, s = lines ++ crlf ∧ IsLines n lines ∧ (t.grown s n).Fits ∧
      (t.grown s n).isWhole = true ∧ e = .complete status read := by
  constructor
  · intro h
    -- by the bytes that are left, since a line is taken at a time
    induction size : s.length using Nat.strongRecOn generalizing s t with
    | _ k ih =>
      obtain ⟨b, rest, r', rfl, one, after⟩ := (closes_step_iff (isOpen_chunked _ _)).mp h
      obtain ⟨-, rfl⟩ := step_last_iff.mp one
      by_cases first : b = byte '\r'
      · rw [if_pos first] at after
        obtain ⟨rfl, fit, whole, rfl⟩ := closes_lastEnd_iff.mp after
        rw [Trailer.grown_grown] at fit whole
        exact ⟨0, [], by rw [first]; rfl, .nil, fit, whole, rfl⟩
      · rw [if_neg first] at after
        obtain ⟨line, rest, rfl, free, -, -, closing⟩ := closes_trailer_iff.mp after
        rw [Trailer.grown_grown] at closing
        obtain ⟨n, lines, rfl, are_lines, fit, whole, rfl⟩ := ih _ (by simp at size ⊢; omega) closing rfl
        rw [Trailer.grown_grown] at fit whole
        have lines : IsLines (n + 1) (b :: line ++ crlf ++ lines) :=
          .cons (List.cons_ne_nil _ _) (List.not_mem_cons_of_ne_of_not_mem (Ne.symm first) free) are_lines
        refine ⟨n + 1, _, by simp, lines, ?_, ?_, rfl⟩
        · simpa [Nat.add_comm 1] using fit
        · simpa [Nat.add_comm 1] using whole
  · rintro ⟨n, lines, rfl, are_lines, fit, whole, rfl⟩
    induction are_lines generalizing t with
    | nil =>
      have halves : t.grown ([] ++ crlf) 0 = (t.grown [byte '\r'] 0).grown [byte '\n'] 0 :=
        (Trailer.grown_grown [byte '\r'] [byte '\n'] 0 0).symm
      rw [halves] at fit whole
      refine .cons (isOpen_chunked _ _) (step_last_iff.mpr ⟨fit.of_grown, rfl⟩) ?_
      rw [if_pos rfl]
      exact closes_lastEnd_iff.mpr ⟨rfl, fit, whole, rfl⟩
    | @cons n line lines some_byte free _ ih =>
      obtain ⟨b, line, rfl⟩ := List.exists_cons_of_ne_nil some_byte
      have few : t.lines + (n + 1) < FieldBlock.most := Trailer.lines_of_isWhole whole
      -- the first byte of a line is read apart from the rest of it
      have parts : t.grown (b :: line ++ crlf ++ lines ++ crlf) (n + 1) =
          ((t.grown [b] 0).grown (line ++ crlf) 1).grown (lines ++ crlf) n := by
        rw [Trailer.grown_grown, Trailer.grown_grown, Nat.zero_add, Nat.add_comm 1]
        simp
      rw [parts] at fit whole
      rw [List.mem_cons, not_or] at free
      refine .cons (isOpen_chunked _ _) (step_last_iff.mpr ⟨fit.of_grown.of_grown, rfl⟩) ?_
      rw [if_neg (Ne.symm free.1)]
      refine closes_trailer_iff.mpr ⟨line, lines ++ crlf, by simp, free.2, ?_, fit.of_grown,
        ih fit whole⟩
      exact Nat.lt_of_le_of_lt (Nat.le_add_right t.lines _) few

/-- What a trailer holds is told by the grammar of fields. -/
theorem isWhole_grown_iff {n : ℕ} : (Trailer.start.grown s n).isWhole = true ↔ n < FieldBlock.most ∧
    ∃ fields lines ending rest, s = lines ++ ending ++ rest ∧ IsFields fields lines ∧
      fields.length ≤ n ∧ IsLineEnd ending := by
  have bytes_eq : (Trailer.start.grown s n).read.reverse = s := by simp [Trailer.grown, Trailer.start]
  have lines_eq : (Trailer.start.grown s n).lines = n := Nat.zero_add n
  simp only [Trailer.isWhole, bytes_eq, lines_eq, Bool.and_eq_true, decide_eq_true_eq,
    Option.any_eq_true, FieldReader.block?_start_iff]
  constructor
  · rintro ⟨few, _, ⟨fields, lines, ending, rest, told, are_fields, -, ends, rfl⟩, fit⟩
    exact ⟨few, fields, lines, ending, rest, told, are_fields, by simpa using fit, ends⟩
  · rintro ⟨few, fields, lines, ending, rest, told, are_fields, fit, ends⟩
    have within : fields.length ≤ FieldBlock.most := by omega
    exact ⟨few, _, ⟨fields, lines, ending, rest, told, are_fields, within, ends, rfl⟩, by simpa using fit⟩

/-- What comes after the empty chunk is a trailer. -/
theorem closes_trailers_iff :
    Closes step IsOpen (.body status read (.chunked x (.last .start))) s e ↔
      IsTrailer s ∧ e = .complete status read := by
  have fits_iff {s : Bytes} {n : ℕ} : (Trailer.start.grown s n).Fits ↔ s.length < Trailer.mostBytes := by
    simp [Trailer.Fits, Trailer.grown, Trailer.start]
  rw [closes_last_iff]
  constructor
  · rintro ⟨n, lines, rfl, are_lines, fit, whole, rfl⟩
    obtain ⟨few, fields, said, ending, rest, told, are_fields, within, ends⟩ := isWhole_grown_iff.mp whole
    exact ⟨.mk are_lines few (fits_iff.mp fit) told are_fields within ends, rfl⟩
  · rintro ⟨@⟨n, lines, said, ending, rest, fields, are_lines, few, fit, told, are_fields, within, ends⟩,
      rfl⟩
    exact ⟨n, lines, rfl, are_lines, fits_iff.mpr fit,
      isWhole_grown_iff.mpr ⟨few, fields, said, ending, rest, told, are_fields, within, ends⟩, rfl⟩

/-! ## Chunks -/

/-- Chunks up to an empty one, whose bytes are what is gathered. -/
theorem closes_chunks_iff (room : x < ChunkPhase.mostExtended) :
    Closes step IsOpen (.body status read (.chunked x .start)) s e ↔
      ∃ extended content, IsChunks extended content s ∧ x + extended < ChunkPhase.mostExtended ∧
        e = .complete status (content.reverse ++ read) := by
  constructor
  · intro h
    -- by the bytes that are left; what has been read grows with each chunk
    induction size : s.length using Nat.strongRecOn generalizing s read x with
    | _ k ih =>
      obtain ⟨n, extended, line, rest, rfl, told, fit, after⟩ := (closes_sizeLine_iff room).mp h
      by_cases empty : n = 0
      · subst empty
        obtain ⟨trailer, rfl⟩ := closes_trailers_iff.mp after
        exact ⟨extended, [], .last told trailer, fit, rfl⟩
      · rw [afterSize, if_neg empty] at after
        obtain ⟨data, rest, rfl, rfl, ended⟩ := (closes_data_iff empty).mp after
        obtain ⟨rest, rfl, closing⟩ := closes_dataEnd_iff.mp ended
        have shorter : rest.length < k := by
          have some_byte : 0 < crlf.length := by decide
          simp at size
          omega
        obtain ⟨more, content, chunks, fit, rfl⟩ := ih rest.length shorter fit closing rfl
        have some_data := List.ne_nil_of_length_pos (Nat.pos_of_ne_zero empty)
        refine ⟨extended + more, data ++ content, ?_, by omega, by simp⟩
        simpa using IsChunks.cons told some_data chunks
  · rintro ⟨_, content, chunks, fit, rfl⟩
    induction chunks generalizing read x with
    | @last extended size trailer told ends =>
      refine (closes_sizeLine_iff room).mpr ⟨0, extended, size, trailer, rfl, told, fit, ?_⟩
      exact closes_trailers_iff.mpr ⟨ends, rfl⟩
    | @cons extended more size data content rest told some_byte _ ih =>
      have due : data.length ≠ 0 := mt List.length_eq_zero_iff.mp some_byte
      have before : x + extended < ChunkPhase.mostExtended := by omega
      refine (closes_sizeLine_iff room).mpr ⟨_, extended, size, data ++ crlf ++ rest, by simp, told, before, ?_⟩
      rw [afterSize, if_neg due]
      refine (closes_data_iff due).mpr ⟨data, crlf ++ rest, by simp, rfl, ?_⟩
      refine closes_dataEnd_iff.mpr ⟨rest, rfl, ?_⟩
      have gathered := @ih (data.reverse ++ read) (x + extended) before (by omega)
      simpa using gathered

end ResponseReader

end GuideRig
