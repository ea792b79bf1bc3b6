/-
# GuideRig.Random -- drawing from a stream of random words

The source of chance is a stream of 64-bit words and the number of words already taken from it, so
that every draw is a function of the stream alone. A small integer takes the low half of a word,
multiplies it into the range and keeps the carry in hand; only when the discarded half says that
rounding could matter is a second word taken to decide the carry. A fraction takes the upper 53
bits of a word.
-/

import GuideRig.Number.Binary64

namespace GuideRig

/-- A stream of words and how many of them are spent. -/
structure Words where
  stream : Nat → UInt64
  used : Nat

namespace Words

/-- The stream from its beginning. -/
def start (stream : Nat → UInt64) : Words := ⟨stream, 0⟩

/-- A word with its bits thoroughly mixed. -/
def mixed (x : UInt64) : UInt64 :=
  let x := (x ^^^ (x >>> 30)) * 0xBF58476D1CE4E5B9
  let x := (x ^^^ (x >>> 27)) * 0x94D049BB133111EB
  x ^^^ (x >>> 31)

/-- The stream that a seed stands for. -/
def ofSeed (seed : UInt64) : Words :=
  start fun n => mixed (seed + (n + 1).toUInt64 * 0x9E3779B97F4A7C15)

/-- The next word. -/
def word (w : Words) : UInt64 := w.stream w.used

/-- The stream with one more word spent. -/
def next (w : Words) : Words := ⟨w.stream, w.used + 1⟩

/-- The low half of the next word. -/
def low (w : Words) : Nat := w.word.toNat % twoTo 32

/-- A number below `n`, for `1 ≤ n < 2^32`. The product of a half word with `n` has the answer in its
upper half; if the lower half exceeds `2^32 - n`, the upper half of a second such product is added
to the lower half, and a carry out of it moves the answer up by one. -/
def below (n : Nat) (w : Words) : Nat × Words :=
  let m := w.low * n
  let hi := m / twoTo 32
  let lo := m % twoTo 32
  -- what is added next is below `n`, so that a carry is possible only from here up
  if twoTo 32 - n < lo then
    let h2 := w.next.low * n / twoTo 32
    (if twoTo 32 ≤ lo + h2 then hi + 1 else hi, w.next.next)
  else (hi, w.next)

/-- A fraction from 0 up to but not including 1: a multiple of `2^-53`. -/
def fraction (w : Words) : Binary64 × Words :=
  (⟨twoTo 1021 * (w.word.toNat / twoTo 11)⟩, w.next)

/-- As many numbers below `n` as asked for, in the order drawn. -/
def manyBelow (n : Nat) : Nat → Words → List Nat × Words
  | 0, w => ([], w)
  | k + 1, w =>
    let (x, w) := below n w
    let (xs, w) := manyBelow n k w
    (x :: xs, w)

end Words

end GuideRig
