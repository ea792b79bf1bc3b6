/-
# GuideRig.Proofs.Toml.Text -- a text is read back from every way of quoting it

A text may be written between double quotes, where a character stands for itself or is written by an
escape (`IsSpelling`), between single quotes, where it is written as it is, and between three quotes of
either kind, where line ends are allowed and, after a backslash, count for nothing (`IsLines`). However it
is written, the reader takes its quotes off and gives the text back, over whatever follows them except
another quote (`IsText.read`). Every text can be written between double quotes, whatever characters it is
made of (`isQuoted_quote`).
-/

import Mathlib.Data.List.TakeWhile
import GuideRig.Proofs.Text.Percent
import GuideRig.Proofs.Text.Span
import GuideRig.Toml.Text

namespace GuideRig.Toml

/-! ## Code points -/

/-- The number that hexadecimal digits write, reading on from a number. -/
def pointFrom? (value : Nat) (ds : List Char) : Option Nat :=
  ds.foldlM (fun value d => (hexDigit? d).map (value * 16 + ·)) value

theorem charOf?_toNat (c : Char) : charOf? c.toNat = some c := by
  have scalar := Utf8.isScalar_toNat c
  rw [Utf8.IsScalar] at scalar
  have valid : (decide (c.toNat < 0xD800) || (decide (0xDFFF < c.toNat) && decide (c.toNat < 0x110000))) =
      true := by
    simp only [Bool.or_eq_true, Bool.and_eq_true, decide_eq_true_eq]
    omega
  rw [charOf?, if_pos valid, Char.ofNat_toNat]

namespace Text

variable {c : Char} {ds got rest s w : List Char} {quote : Char} {escapes lines : Bool}

/-! ## Escapes -/

/-- What a backslash is followed by to write a character: a letter, or the digits of its code point. -/
inductive IsEscape (c : Char) : List Char → Prop
  | letter {e : Char} : shortEscape? e = some c → IsEscape c [e]
  | four {ds : List Char} : ds.length = 4 → pointFrom? 0 ds = some c.toNat → IsEscape c ('u' :: ds)
  | eight {ds : List Char} : ds.length = 8 → pointFrom? 0 ds = some c.toNat → IsEscape c ('U' :: ds)

/-- A letter that stands for a character is none that digits follow. -/
theorem ne_of_shortEscape? {e : Char} (h : shortEscape? e = some c) : e ≠ 'u' ∧ e ≠ 'U' := by
  constructor
  · rintro rfl
    cases h
  · rintro rfl
    cases h

/-- A reader that takes a digit at a time, and goes on with the character when none is due, comes to the
character that the digits write. -/
theorem digits_part {α : Type} {f : Nat → Nat → List Char → α} {g : Char → List Char → α}
    (more : ∀ {due value d v r}, hexDigit? d = some v →
      f (due + 2) value (d :: r) = f (due + 1) (value * 16 + v) r)
    (last : ∀ {value d v c r}, hexDigit? d = some v → charOf? (value * 16 + v) = some c →
      f 1 value (d :: r) = g c r)
    {due value : Nat} (length : ds.length = due + 1) (point : pointFrom? value ds = some c.toNat) :
    f (due + 1) value (ds ++ rest) = g c rest := by
  induction ds generalizing due value with
  | nil => cases length
  | cons d ds ih =>
    rw [pointFrom?, List.foldlM_cons] at point
    cases digit : hexDigit? d with
    | none =>
      rw [digit] at point
      cases point
    | some v =>
      rw [digit] at point
      cases due with
      | zero =>
        obtain rfl := List.eq_nil_of_length_eq_zero (Nat.succ.inj length)
        have value_eq : value * 16 + v = c.toNat := Option.some.inj point
        exact last digit (by rw [value_eq, charOf?_toNat])
      | succ due => exact (more digit).trans (ih (Nat.succ.inj length) point)

theorem readBasic_digits {due : Nat} (length : ds.length = due + 1) (point : pointFrom? 0 ds = some c.toNat) :
    readBasic got (.digits (due + 1) 0) (ds ++ rest) = readBasic (c :: got) .none rest := by
  refine digits_part (f := fun due value => readBasic got (.digits due value))
    (g := fun c => readBasic (c :: got) .none) ?_ ?_ length point
  · intro due value d v r digit
    rw [readBasic, digit]
    exact if_pos (Nat.succ_lt_succ (Nat.succ_pos due))
  · intro value d v c r digit char
    rw [readBasic, digit]
    dsimp only
    rw [if_neg (Nat.lt_irrefl 1), char]

theorem readBasic_escape (h : IsEscape c w) :
    readBasic got .none ('\\' :: w ++ rest) = readBasic (c :: got) .none rest := by
  have opens : readBasic got .none ('\\' :: w ++ rest) = readBasic got .opened (w ++ rest) := rfl
  rw [opens]
  cases h with
  | @letter e stands =>
    obtain ⟨four, eight⟩ := ne_of_shortEscape? stands
    rw [List.singleton_append, readBasic, if_neg four, if_neg eight, stands]
  | four length point => exact readBasic_digits length point
  | eight length point => exact readBasic_digits length point

/-! ## Double quotes -/

/-- What stands between double quotes for some characters. -/
inductive IsSpelling : List Char → List Char → Prop
  | nil : IsSpelling [] []
  | plain {c : Char} {s w : List Char} : isPlain c = true → IsSpelling s w → IsSpelling (c :: s) (c :: w)
  | escape {c : Char} {u s w : List Char} : IsEscape c u → IsSpelling s w →
      IsSpelling (c :: s) ('\\' :: u ++ w)

theorem IsSpelling.readBasic (h : IsSpelling s w) :
    readBasic got .none (w ++ '"' :: rest) = some (String.ofList (got.reverse ++ s), rest) := by
  induction h generalizing got with
  | nil =>
    rw [List.append_nil]
    rfl
  | @plain c s w plain _ ih =>
    have apart : c ≠ '"' ∧ c ≠ '\\' := by
      simp only [isPlain, Bool.and_eq_true, bne_iff_ne] at plain
      exact ⟨plain.1.2, plain.2⟩
    rw [List.cons_append, Text.readBasic, if_neg apart.1, if_neg apart.2, if_pos plain, ih,
      List.reverse_cons, List.append_assoc, List.singleton_append]
  | @escape c u s w isEscape _ ih =>
    rw [List.append_assoc, readBasic_escape isEscape, ih, List.reverse_cons, List.append_assoc,
      List.singleton_append]

/-! ## On one line -/

/-- A text in quotes of one kind or the other. -/
inductive IsQuoted (s : String) : List Char → Prop
  | double {w : List Char} : IsSpelling s.toList w → IsQuoted s ('"' :: w ++ ['"'])
  | single : (∀ c ∈ s.toList, isLiteral c = true) → IsQuoted s ('\'' :: s.toList ++ ['\''])

/-- No further quote comes next. -/
def EndsText (s : List Char) : Prop := ∀ c ∈ s.head?, c ≠ '"' ∧ c ≠ '\''

theorem readLiteral_part (literal : ∀ c ∈ s, isLiteral c = true) :
    readLiteral (s ++ '\'' :: rest) = some (String.ofList s, rest) := by
  have stops : Stops isLiteral ('\'' :: rest) := stops_cons rfl rest
  rw [readLiteral, dropWhile_part literal stops, takeWhile_part literal stops]
  rfl

/-- Between double quotes nothing begins with a quote. -/
theorem IsSpelling.head? (h : IsSpelling s w) : w.head? ≠ some '"' := by
  cases h with
  | nil => exact fun same => nomatch same
  | @plain c s w plain _ =>
    intro same
    rw [Option.some.inj same] at plain
    cases plain
  | escape _ _ => exact fun same => absurd (Option.some.inj same) (by decide)

/-- Where two quotes more do not follow, the first quote opens a text on one line. -/
theorem readQuoted_double {t : List Char} (one : ∀ r, t ≠ '"' :: '"' :: r) :
    readQuoted lines ('"' :: t) = readBasic [] .none t := by
  unfold readQuoted
  split
  · rename_i r begins
    exact absurd (List.cons.inj begins).2 (one r)
  · rename_i r _ begins
    rw [(List.cons.inj begins).2]
  · rename_i begins
    cases begins
  · rename_i begins
    cases begins
  · rename_i _ other _ _
    exact absurd rfl (other t)

theorem readQuoted_single {t : List Char} (one : ∀ r, t ≠ '\'' :: '\'' :: r) :
    readQuoted lines ('\'' :: t) = readLiteral t := by
  unfold readQuoted
  split
  · rename_i begins
    cases begins
  · rename_i begins
    cases begins
  · rename_i r begins
    exact absurd (List.cons.inj begins).2 (one r)
  · rename_i r _ begins
    rw [(List.cons.inj begins).2]
  · rename_i _ _ _ other
    exact absurd rfl (other t)

/-- A text that begins with no quote, and is not followed by one, does not make three quotes of its own. -/
theorem ne_two_quotes (first : s.head? ≠ some quote) (ends : rest.head? ≠ some quote) (r : List Char) :
    s ++ quote :: rest ≠ quote :: quote :: r := by
  intro same
  cases s with
  | nil =>
    have behind : rest = quote :: r := (List.cons.inj same).2
    exact ends (congrArg List.head? behind)
  | cons d s => exact first (congrArg some (List.cons.inj same).1)

/-- A text in quotes is read back. -/
theorem IsQuoted.read {s : String} (h : IsQuoted s w) (ends : EndsText rest) :
    readQuoted lines (w ++ rest) = some (s, rest) := by
  have behind (q : Char) (quote : q = '"' ∨ q = '\'') : rest.head? ≠ some q := by
    intro same
    obtain ⟨double, single⟩ := ends q same
    exact quote.elim double single
  cases h with
  | @double w spelling =>
    rw [List.append_assoc, List.cons_append, List.singleton_append,
      readQuoted_double (ne_two_quotes spelling.head? (behind '"' (.inl rfl))), spelling.readBasic]
    exact congrArg (fun t => some (t, rest)) String.ofList_toList
  | single literal =>
    have first : s.toList.head? ≠ some '\'' := by
      intro same
      have kept := literal '\'' (List.mem_of_head? same)
      cases kept
    rw [List.append_assoc, List.cons_append, List.singleton_append,
      readQuoted_single (ne_two_quotes first (behind '\'' (.inr rfl))), readLiteral_part literal,
      String.ofList_toList]

/-- The plain way of writing a character is one. -/
theorem isSpelling_escapeChar (c : Char) (h : IsSpelling s w) : IsSpelling (c :: s) (escapeChar c ++ w) := by
  have digits : ∀ n < 0x80, pointFrom? 0 ['0', '0', Char.ofNat (Ascii.upperHex (n / 16)).toNat,
      Char.ofNat (Ascii.upperHex (n % 16)).toNat] = some n := by decide
  unfold escapeChar
  split
  · rename_i quote
    rw [quote]
    exact .escape (.letter rfl) h
  split
  · rename_i slash
    rw [slash]
    exact .escape (.letter rfl) h
  split
  · rename_i control
    simp only [Bool.or_eq_true, decide_eq_true_eq] at control
    exact .escape (.four rfl (digits c.toNat (by omega))) h
  · rename_i quote slash visible
    simp only [Bool.or_eq_true, decide_eq_true_eq, not_or] at visible
    refine .plain ?_ h
    simp only [isPlain, inComment, Bool.and_eq_true, Bool.or_eq_true, bne_iff_ne, decide_eq_true_eq]
    exact ⟨⟨.inr ⟨Nat.not_lt.mp visible.1, visible.2⟩, quote⟩, slash⟩

/-- Whatever characters a text is made of, it can be written between double quotes. -/
theorem isQuoted_quote (s : String) : IsQuoted s (Text.quote s) := by
  apply IsQuoted.double
  induction s.toList with
  | nil => exact .nil
  | cons c s ih => exact isSpelling_escapeChar c ih

/-! ## On several lines -/

/-- The end of a line inside of a text. -/
def IsLineEnd (e : List Char) : Prop := e = ['\n'] ∨ e = ['\r', '\n']

/-- Blanks and ends of lines. -/
inductive IsGap : List Char → Prop
  | nil : IsGap []
  | blank {c : Char} {s : List Char} : c = ' ' ∨ c = '\t' → IsGap s → IsGap (c :: s)
  | lineEnd {e s : List Char} : IsLineEnd e → IsGap s → IsGap (e ++ s)

/-- What stands for some characters between three quotes: a character for itself, the end of a line for a
line feed, or an escape. -/
inductive IsItem (quote : Char) (escapes : Bool) : List Char → List Char → Prop
  | char {c : Char} : inComment c = true → c ≠ quote → (escapes = true → c ≠ '\\') →
      IsItem quote escapes [c] [c]
  | lineEnd {e : List Char} : IsLineEnd e → IsItem quote escapes ['\n'] e
  | escape {c : Char} {u : List Char} : escapes = true → IsEscape c u → IsItem quote escapes [c] ('\\' :: u)

/-- No blank and no end of a line comes next. -/
def EndsGap (s : List Char) : Prop := ∀ c ∈ s.head?, c ≠ ' ' ∧ c ≠ '\t' ∧ c ≠ '\n' ∧ c ≠ '\r'

/-- What stands behind three opening quotes, the closing ones included. Up to two quotes may stand before
every item and before the closing ones; a backslash at the end of a line takes the gap that follows away. -/
inductive IsLines (quote : Char) (escapes : Bool) : List Char → List Char → Prop
  | close {quotes : Nat} : quotes ≤ 2 →
      IsLines quote escapes (List.replicate quotes quote) (List.replicate (3 + quotes) quote)
  | item {quotes : Nat} {t u s w : List Char} : quotes ≤ 2 → IsItem quote escapes t u →
      IsLines quote escapes s w →
      IsLines quote escapes (List.replicate quotes quote ++ (t ++ s)) (List.replicate quotes quote ++ (u ++ w))
  | fold {quotes : Nat} {blanks e gap s w : List Char} : quotes ≤ 2 → escapes = true →
      (∀ c ∈ blanks, c = ' ' ∨ c = '\t') → IsLineEnd e → IsGap gap → IsLines quote escapes s w →
      EndsGap w → IsLines quote escapes (List.replicate quotes quote ++ s)
        (List.replicate quotes quote ++ ('\\' :: blanks ++ (e ++ (gap ++ w))))

section Lines

variable (isQuote : quote = '"' ∨ quote = '\'')
include isQuote

theorem quote_ne {c : Char} (h : c ≠ '"' ∧ c ≠ '\'') : c ≠ quote := by
  rintro rfl
  exact isQuote.elim h.1 h.2

omit isQuote in
/-- Quotes are counted as long as they are no three. -/
theorem readLines_quotes {counted quotes : Nat} (few : counted + quotes ≤ 2) :
    readLines quote escapes got (.plain counted) (List.replicate quotes quote ++ rest) =
      readLines quote escapes got (.plain (counted + quotes)) rest := by
  induction quotes generalizing counted with
  | zero => rfl
  | succ quotes ih =>
    have counts :
        readLines quote escapes got (.plain counted) (quote :: (List.replicate quotes quote ++ rest)) =
          readLines quote escapes got (.plain (counted + 1)) (List.replicate quotes quote ++ rest) := by
      rw [readLines, if_pos rfl, if_neg (by omega)]
    rw [List.replicate_succ, List.cons_append, counts, ih (by omega), Nat.add_right_comm, Nat.add_assoc]

omit isQuote in
theorem readLines_of_step {quotes : Nat} {phase : LinesPhase} {got' : List Char} (other : c ≠ quote)
    (step : plainStep quote escapes quotes got c = some (got', phase)) :
    readLines quote escapes got (.plain quotes) (c :: rest) = readLines quote escapes got' phase rest := by
  rw [readLines, if_neg other, step]

omit isQuote in
/-- After three quotes up to two more belong to the text. -/
theorem closeLines_quotes {quotes : Nat} (few : quotes ≤ 2) (ends : rest.head? ≠ some quote) :
    closeLines quote got (List.replicate quotes quote ++ rest) =
      (String.ofList (got.reverse ++ List.replicate quotes quote), rest) := by
  have other {a : Char} {r : List Char} (first : rest = a :: r) : a ≠ quote := by
    rintro rfl
    exact ends (congrArg List.head? first)
  match quotes, few with
  | 0, _ =>
    cases rest with
    | nil => simp [closeLines]
    | cons a rest =>
      cases rest with
      | nil => simp [closeLines, other rfl]
      | cons b rest => simp [closeLines, other rfl]
  | 1, _ =>
    cases rest with
    | nil => simp [closeLines]
    | cons a rest => simp [closeLines, other rfl]
  | 2, _ => simp [closeLines]

omit isQuote in
theorem readLines_digits {due : Nat} (length : ds.length = due + 1) (point : pointFrom? 0 ds = some c.toNat) :
    readLines quote escapes got (.escape (.digits (due + 1) 0)) (ds ++ rest) =
      readLines quote escapes (c :: got) (.plain 0) rest := by
  refine digits_part (f := fun due value => readLines quote escapes got (.escape (.digits due value)))
    (g := fun c => readLines quote escapes (c :: got) (.plain 0)) ?_ ?_ length point
  · intro due value d v r digit
    rw [readLines, digit]
    exact if_pos (Nat.succ_lt_succ (Nat.succ_pos due))
  · intro value d v c r digit char
    rw [readLines, digit]
    dsimp only
    rw [if_neg (Nat.lt_irrefl 1), char]

omit isQuote in
theorem readLines_escape (h : IsEscape c w) :
    readLines quote escapes got (.escape .opened) (w ++ rest) =
      readLines quote escapes (c :: got) (.plain 0) rest := by
  cases h with
  | @letter e stands =>
    obtain ⟨four, eight⟩ := ne_of_shortEscape? stands
    have blank : (e = ' ' || e = '\t') = false := by
      rw [Bool.or_eq_false_iff, decide_eq_false_iff_not, decide_eq_false_iff_not]
      constructor
      · rintro rfl
        cases stands
      · rintro rfl
        cases stands
    have feed : e ≠ '\n' := by
      rintro rfl
      cases stands
    have half : e ≠ '\r' := by
      rintro rfl
      cases stands
    rw [List.singleton_append, readLines, if_neg four, if_neg eight, if_neg (ne_true_of_eq_false blank),
      if_neg feed, if_neg half, stands]
  | four length point => exact readLines_digits length point
  | eight length point => exact readLines_digits length point

/-- An item is added to the text, behind the quotes that stand before it. -/
theorem readLines_item {quotes : Nat} {t u : List Char} (h : IsItem quote escapes t u) :
    readLines quote escapes got (.plain quotes) (u ++ rest) =
      readLines quote escapes (t.reverse ++ (List.replicate quotes quote ++ got)) (.plain 0) rest := by
  cases h with
  | @char c kept other slash =>
    have feed : c ≠ '\n' := by
      rintro rfl
      cases kept
    have half : c ≠ '\r' := by
      rintro rfl
      cases kept
    have bare : (c = '\\' && escapes) = false := by
      cases escapes with
      | false => exact Bool.and_false _
      | true => rw [decide_eq_false (slash rfl), Bool.false_and]
    apply readLines_of_step other
    rw [plainStep, if_neg feed, if_neg half, if_neg (ne_true_of_eq_false bare), if_pos kept]
    rfl
  | lineEnd isEnd =>
    have feed : '\n' ≠ quote := quote_ne isQuote (by decide)
    have half : '\r' ≠ quote := quote_ne isQuote (by decide)
    rcases isEnd with rfl | rfl
    · exact readLines_of_step feed rfl
    · exact readLines_of_step half rfl
  | @escape c u allowed isEscape =>
    have slash : '\\' ≠ quote := quote_ne isQuote (by decide)
    rw [allowed]
    exact (readLines_of_step slash rfl).trans (readLines_escape isEscape)

omit isQuote in
/-- Blanks, and the end of the line, after a backslash. -/
theorem readLines_folding {blanks e : List Char} (blank : ∀ c ∈ blanks, c = ' ' ∨ c = '\t')
    (isEnd : IsLineEnd e) :
    readLines quote escapes got .folding (blanks ++ (e ++ rest)) =
      readLines quote escapes got .folded rest := by
  induction blanks with
  | nil => rcases isEnd with rfl | rfl <;> rfl
  | cons c blanks ih =>
    obtain ⟨first, later⟩ := List.forall_mem_cons.mp blank
    rcases first with rfl | rfl
    · exact ih later
    · exact ih later

omit isQuote in
theorem readLines_opened {blanks e : List Char} (blank : ∀ c ∈ blanks, c = ' ' ∨ c = '\t')
    (isEnd : IsLineEnd e) :
    readLines quote escapes got (.escape .opened) (blanks ++ (e ++ rest)) =
      readLines quote escapes got .folded rest := by
  cases blanks with
  | nil => rcases isEnd with rfl | rfl <;> rfl
  | cons c blanks =>
    obtain ⟨first, later⟩ := List.forall_mem_cons.mp blank
    rcases first with rfl | rfl
    · exact readLines_folding later isEnd
    · exact readLines_folding later isEnd

omit isQuote in
/-- A gap counts for nothing after the end of a line that was taken away. -/
theorem readLines_gap {gap : List Char} (h : IsGap gap) :
    readLines quote escapes got .folded (gap ++ rest) = readLines quote escapes got .folded rest := by
  induction h with
  | nil => rfl
  | blank first _ ih => rcases first with rfl | rfl <;> exact ih
  | lineEnd isEnd _ ih => rcases isEnd with rfl | rfl <;> exact ih

omit isQuote in
/-- Behind the gap the text goes on as before it. -/
theorem readLines_folded (ends : EndsGap w) (some_left : w ≠ []) :
    readLines quote escapes got .folded (w ++ rest) = readLines quote escapes got (.plain 0) (w ++ rest) := by
  obtain ⟨c, w, rfl⟩ := List.exists_cons_of_ne_nil some_left
  obtain ⟨space, tab, feed, half⟩ := ends c rfl
  have gap : (c = ' ' || c = '\t' || c = '\n') = false := by
    rw [decide_eq_false space, decide_eq_false tab, decide_eq_false feed]
    rfl
  rw [List.cons_append]
  simp only [readLines, gap, Bool.false_eq_true, if_false, if_neg half]
  rfl

omit isQuote in
theorem IsLines.ne_nil (h : IsLines quote escapes s w) : w ≠ [] := by
  cases h with
  | close => exact List.ne_nil_of_length_pos (by rw [List.length_replicate]; omega)
  | item _ isItem _ =>
    apply List.append_ne_nil_of_right_ne_nil
    apply List.append_ne_nil_of_left_ne_nil
    cases isItem with
    | char => exact List.cons_ne_nil _ _
    | lineEnd isEnd => rcases isEnd with rfl | rfl <;> exact List.cons_ne_nil _ _
    | escape => exact List.cons_ne_nil _ _
  | fold => exact List.append_ne_nil_of_right_ne_nil _ (List.cons_ne_nil _ _)

/-- What stands between three quotes is read back, with the quotes that belong to it. -/
theorem IsLines.readLines (h : IsLines quote escapes s w) (ends : rest.head? ≠ some quote) :
    readLines quote escapes got (.plain 0) (w ++ rest) = some (String.ofList (got.reverse ++ s), rest) := by
  induction h generalizing got with
  | @close quotes few =>
    have three : List.replicate (3 + quotes) quote ++ rest =
        List.replicate 2 quote ++ (quote :: (List.replicate quotes quote ++ rest)) := by
      rw [← List.replicate_append_replicate]
      rfl
    have closes : Text.readLines quote escapes got (.plain 2) (quote :: (List.replicate quotes quote ++ rest)) =
        some (closeLines quote got (List.replicate quotes quote ++ rest)) := by
      rw [Text.readLines, if_pos rfl, if_pos rfl]
    rw [three, readLines_quotes (Nat.le_refl _), closes, closeLines_quotes few ends]
  | @item quotes t u s w few isItem _ ih =>
    rw [List.append_assoc, List.append_assoc, readLines_quotes (by omega), Nat.zero_add,
      readLines_item isQuote isItem, ih]
    simp only [List.reverse_append, List.reverse_reverse, List.reverse_replicate, List.append_assoc]
  | @fold quotes blanks e gap s w few allowed blank isEnd isGap lines gone ih =>
    have opens (r : List Char) : Text.readLines quote escapes got (.plain quotes) ('\\' :: r) =
        Text.readLines quote escapes (List.replicate quotes quote ++ got) (.escape .opened) r := by
      rw [allowed]
      exact readLines_of_step (quote_ne isQuote (by decide)) rfl
    simp only [List.append_assoc, List.cons_append]
    rw [readLines_quotes (by omega), Nat.zero_add, opens, readLines_opened blank isEnd, readLines_gap isGap,
      readLines_folded gone lines.ne_nil, ih]
    simp only [List.reverse_append, List.reverse_replicate, List.append_assoc]

end Lines

/-! ## Any quotes -/

/-- A text in quotes, which may stand on one line or on several. In the second case an end of a line
directly behind the opening quotes does not count. -/
inductive IsText (s : String) : List Char → Prop
  | line {w : List Char} : IsQuoted s w → IsText s w
  | lines {quote : Char} {escapes : Bool} {e w : List Char} :
      (quote = '"' ∧ escapes = true) ∨ (quote = '\'' ∧ escapes = false) →
      (e = [] ∧ ∀ c ∈ w.head?, c ≠ '\n' ∧ c ≠ '\r') ∨ IsLineEnd e →
      IsLines quote escapes s.toList w → IsText s (quote :: quote :: quote :: (e ++ w))

theorem dropFirstLineEnd_part {e : List Char}
    (first : (e = [] ∧ ∀ c ∈ w.head?, c ≠ '\n' ∧ c ≠ '\r') ∨ IsLineEnd e) (some_left : w ≠ []) :
    dropFirstLineEnd (e ++ w ++ rest) = w ++ rest := by
  rcases first with ⟨rfl, other⟩ | rfl | rfl
  · obtain ⟨c, w, rfl⟩ := List.exists_cons_of_ne_nil some_left
    obtain ⟨feed, half⟩ := other c rfl
    unfold dropFirstLineEnd
    split
    · rename_i r begins
      exact absurd (List.cons.inj begins).1 feed
    · rename_i r begins
      exact absurd (List.cons.inj begins).1 half
    · rfl
  · rfl
  · rfl

/-- However it is quoted, a text is read back. -/
theorem IsText.read {s : String} (h : IsText s w) (ends : EndsText rest) :
    readQuoted true (w ++ rest) = some (s, rest) := by
  cases h with
  | line quoted => exact quoted.read ends
  | @lines quote escapes e w kind first lines =>
    have dropped : dropFirstLineEnd (e ++ w ++ rest) = w ++ rest := dropFirstLineEnd_part first lines.ne_nil
    rcases kind with ⟨rfl, rfl⟩ | ⟨rfl, rfl⟩
    · have other : rest.head? ≠ some '"' := fun same => (ends '"' same).1 rfl
      have read : Text.readLines '"' true [] (.plain 0) (w ++ rest) =
          some (String.ofList s.toList, rest) := lines.readLines (.inl rfl) other
      show Text.readLines '"' true [] (.plain 0) (dropFirstLineEnd (e ++ w ++ rest)) = _
      rw [dropped, read, String.ofList_toList]
    · have other : rest.head? ≠ some '\'' := fun same => (ends '\'' same).2 rfl
      have read : Text.readLines '\'' false [] (.plain 0) (w ++ rest) =
          some (String.ofList s.toList, rest) := lines.readLines (.inr rfl) other
      show Text.readLines '\'' false [] (.plain 0) (dropFirstLineEnd (e ++ w ++ rest)) = _
      rw [dropped, read, String.ofList_toList]

end Text

end GuideRig.Toml
