/-
# GuideRig.Proofs.Http.Grammar -- responses as a format, without a reader

What a response is that carries its own end is said here by a grammar (`IsMessage`): any number of interim
heads, a final head, and a body whose end the head tells of, because there is none, because it has a
length, or because it comes in chunks. What a connection delivers is a response (`IsResponse`) if it begins
with one of these, or if the body goes on for as long as the connection does. No reader takes part in it;
of the library only the classes of bytes and the meaning of a block of fields are used.
-/

import GuideRig.Http.ResponseReader

namespace GuideRig.Http

open Ascii

/-! ## Heads -/

/-- The end of a line of a head. -/
def IsLineEnd (s : Bytes) : Prop := s = [byte '\n'] ∨ s = [byte '\r', byte '\n']

/-- Ends of lines, which may stand before a head. -/
inductive IsBlank : Bytes → Prop
  | nil : IsBlank []
  | cons {ending s : Bytes} : IsLineEnd ending → IsBlank s → IsBlank (ending ++ s)

/-- The words after a status and the space before them, if there are any. -/
def IsReason (s : Bytes) : Prop :=
  s = [] ∨ ∃ words, s = byte ' ' :: words ∧ ∀ b ∈ words, FieldBlock.inText b = true

/-- A status line: one of two versions, a status of three digits, and perhaps words. -/
inductive IsStatusLine : StatusLine → Bytes → Prop
  | mk {old : Bool} {digits reason ending : Bytes} : digits.length = 3 →
      (∀ d ∈ digits, isDigit d = true) → IsReason reason → IsLineEnd ending →
      IsStatusLine ⟨old, value digits⟩
        (bytes (if old then "HTTP/1.0 " else "HTTP/1.1 ") ++ digits ++ reason ++ ending)

/-- The line of a field. The name counts in small letters, the value without the gaps around it. -/
inductive IsFieldLine : Bytes × Bytes → Bytes → Prop
  | mk {name text ending : Bytes} : name ≠ [] → (∀ b ∈ name, FieldBlock.inName b = true) →
      (∀ b ∈ text, FieldBlock.inText b = true) → IsLineEnd ending →
      IsFieldLine (lowercase name, FieldBlock.trimmed (text.dropWhile FieldBlock.isGap).reverse)
        (name ++ byte ':' :: text ++ ending)

/-- The lines of some fields. -/
inductive IsFields : List (Bytes × Bytes) → Bytes → Prop
  | nil : IsFields [] []
  | cons {field : Bytes × Bytes} {fields : List (Bytes × Bytes)} {line s : Bytes} :
      IsFieldLine field line → IsFields fields s → IsFields (field :: fields) (line ++ s)

/-- A head: a status line, not too many fields, and an empty line. -/
inductive IsHead : StatusLine → FieldBlock → Bytes → Prop
  | mk {line : StatusLine} {fields : List (Bytes × Bytes)} {blank first lines ending : Bytes} :
      IsBlank blank → IsStatusLine line first → IsFields fields lines →
      fields.length ≤ FieldBlock.most → IsLineEnd ending →
      IsHead line fields.reverse (blank ++ first ++ lines ++ ending)

/-! ## Chunks -/

/-- The end of a line of a body. -/
def crlf : Bytes := [byte '\r', byte '\n']

/-- What may follow the size of a chunk on its line, and how many bytes of it are counted. -/
inductive IsExtension : Nat → Bytes → Prop
  | nil : IsExtension 0 []
  | words {words : Bytes} : (∀ b ∈ words, b ≠ byte '\r' ∧ b ≠ byte '\n') →
      IsExtension words.length (byte ';' :: words)

/-- The line that tells the size of a chunk, and how many bytes of extensions it holds. -/
inductive IsSizeLine : Nat → Nat → Bytes → Prop
  | mk {digits gaps extension : Bytes} {extended : Nat} : digits ≠ [] →
      (∀ d ∈ digits, (hexValue? d).isSome) → valueFrom 16 0 digits < twoTo 64 →
      (∀ b ∈ gaps, FieldBlock.isGap b = true) → IsExtension extended extension →
      IsSizeLine (valueFrom 16 0 digits) extended (digits ++ gaps ++ extension ++ crlf)

/-- So many lines, none of which is empty. -/
inductive IsLines : Nat → Bytes → Prop
  | nil : IsLines 0 []
  | cons {n : Nat} {line s : Bytes} : line ≠ [] → byte '\r' ∉ line → IsLines n s →
      IsLines (n + 1) (line ++ crlf ++ s)

/-- What comes after the empty chunk: some lines and an empty one, which hold fields, not more of them than
lines. If an empty line comes earlier, because it ends with the second half of a line end alone, then what
stands behind it means nothing. -/
inductive IsTrailer : Bytes → Prop
  | mk {n : Nat} {s lines ending rest : Bytes} {fields : List (Bytes × Bytes)} : IsLines n s →
      n < FieldBlock.most → (s ++ crlf).length < Trailer.mostBytes →
      s ++ crlf = lines ++ ending ++ rest → IsFields fields lines → fields.length ≤ n →
      IsLineEnd ending → IsTrailer (s ++ crlf)

/-- A body in chunks, what it holds, and how many bytes of extensions its chunks have together. -/
inductive IsChunks : Nat → Bytes → Bytes → Prop
  | last {extended : Nat} {size trailer : Bytes} : IsSizeLine 0 extended size → IsTrailer trailer →
      IsChunks extended [] (size ++ trailer)
  | cons {extended more : Nat} {size data content rest : Bytes} : IsSizeLine data.length extended size →
      data ≠ [] → IsChunks more content rest →
      IsChunks (extended + more) (data ++ content) (size ++ data ++ crlf ++ rest)

/-! ## Responses -/

/-- A body that ends where the head before it says, and what it holds. -/
inductive IsBody (line : StatusLine) (block : FieldBlock) : Bytes → Bytes → Prop
  | bare : Status.isBare line.status = true → IsBody line block [] []
  | chunked {extended : Nat} {content wire : Bytes} : Status.isBare line.status = false →
      line.old = false → FieldBlock.isChunked block.codings = true → IsChunks extended content wire →
      extended < ChunkPhase.mostExtended → IsBody line block content wire
  | counted {wire : Bytes} : Status.isBare line.status = false → block.codings = [] →
      FieldBlock.length? block.lengths = some wire.length → wire.length ≤ FieldBlock.mostLength →
      IsBody line block wire wire

/-- A response that carries its own end, with its status and content. Interim responses may stand before
it. -/
inductive IsMessage (status : Nat) (content : Bytes) : Bytes → Prop
  | interim {line : StatusLine} {block : FieldBlock} {head rest : Bytes} : IsHead line block head →
      Status.isInterim line.status = true → IsMessage status content rest →
      IsMessage status content (head ++ rest)
  | final {line : StatusLine} {block : FieldBlock} {head wire : Bytes} : IsHead line block head →
      line.status = status → 100 ≤ status → Status.isInterim status = false →
      IsBody line block content wire → IsMessage status content (head ++ wire)

/-- After a head like this only the connection ends the body: it tells of another coding than chunks, or of
neither a coding nor a length. -/
inductive IsEndless (line : StatusLine) (block : FieldBlock) : Prop
  | coded : Status.isBare line.status = false → line.old = false → block.codings ≠ [] →
      FieldBlock.isChunked block.codings = false → IsEndless line block
  | untold : Status.isBare line.status = false → block.codings = [] → block.lengths = [] →
      IsEndless line block

/-- The heads of a response whose body ends with the connection. -/
inductive IsEndlessHead (status : Nat) : Bytes → Prop
  | interim {line : StatusLine} {block : FieldBlock} {head rest : Bytes} : IsHead line block head →
      Status.isInterim line.status = true → IsEndlessHead status rest →
      IsEndlessHead status (head ++ rest)
  | final {line : StatusLine} {block : FieldBlock} {head : Bytes} : IsHead line block head →
      line.status = status → 100 ≤ status → Status.isInterim status = false →
      IsEndless line block → IsEndlessHead status head

/-- What a connection delivers until it ends is a response with a status and content: it begins with one that
carries its own end, whatever follows, or all that follows its heads is the content. -/
inductive IsResponse (status : Nat) (content : Bytes) : Bytes → Prop
  | ended {message rest : Bytes} : IsMessage status content message →
      IsResponse status content (message ++ rest)
  | endless {heads : Bytes} : IsEndlessHead status heads → IsResponse status content (heads ++ content)

end GuideRig.Http
