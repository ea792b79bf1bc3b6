/-
# GuideRig.Proofs.Telemetry.CutOff -- a response that is cut off is no answer

The reader waits for the last byte of a response that carries its own end, and while it waits the end of
the connection is a fault (`ResponseReader.read_of_cut`). Since a bot judges nothing but what the reader
has read to its end, neither success nor the status of a refusal can come of less than the whole response
(`Call.perform_of_cut`).
-/

import GuideRig.Proofs.Http.Response
import GuideRig.Proofs.Telemetry.Requests

namespace GuideRig

open Ascii Http

namespace Bot

/-- The results that pass a verdict on a response: it is a success, or its status refuses. -/
inductive IsVerdict : Except Error Unit → Prop
  | done : IsVerdict (.ok ())
  | refused {method : Method} {url : String} {status : ℕ} :
      IsVerdict (.error (.status method url status))

variable {bot : Bot} {c : Call} {p : Progress} {backend backend' : Backend} {status : ℕ}
  {content whole cut : Bytes}

/-- Where a call passes a verdict on a response that carries its own end, it fails over the response when
the same connection ends anywhere before the last byte. -/
theorem perform_of_cut (message : IsMessage status content whole)
    (there : backend p.tried = .reply whole) (verdict : IsVerdict (c.perform bot backend p).1)
    (begins : cut <+: whole) (short : cut ≠ whole) (there' : backend' p.tried = .reply cut) :
    ∃ f, (c.perform bot backend' p).1 = .error (.response f) := by
  obtain ⟨f, unread⟩ := ResponseReader.read_of_cut message begins short
  rcases c.perform_cases bot p with ⟨e, q, out, -, other⟩ |
    ⟨url, -, method, headers, body, doneNote, q, out, tried, -⟩
  · -- a call that gives up has not come to a connection
    rw [out] at verdict
    rcases other with rfl | ⟨_, rfl⟩ <;> cases verdict
  · rw [← tried] at there there'
    rw [out] at verdict ⊢
    cases reach : Exchange.isReachable url with
    | false =>
      rw [exchange_unsupported reach] at verdict
      cases verdict
    | true =>
      cases built : Exchange.build method url headers body with
      | error fault =>
        rw [exchange_unbuilt reach there built] at verdict
        cases verdict
      | ok r =>
        rw [exchange_built reach there' built, Exchange.judge_unread unread]
        exact ⟨f, rfl⟩

/-- An interim response and a refusal in chunks, cut after the size of the empty chunk. -/
theorem perform_of_cut_in_chunk :
    let interim := bytes "HTTP/1.1 100 Continue\r\n\r\n"
    let refusal := bytes "HTTP/1.1 404 \r\nTransfer-Encoding: chunked\r\n\r\n"
    let whole := interim ++ (refusal ++ bytes "2;x\r\nno\r\n0\r\n\r\n")
    let cut := interim ++ (refusal ++ bytes "2;x\r\nno\r\n0")
    let root : Url := ⟨Url.http, some ⟨[], none, .domain (bytes "h"), none⟩, bytes "/", true, none, none⟩
    let bot : Bot := ⟨root, ⟨"abc"⟩, ⟨["nebo"], .empty⟩, ⟨60, 0⟩⟩
    let p := Progress.start (.start fun _ => 0)
    IsMessage 404 (bytes "no") whole ∧
      IsVerdict ((Call.sendTelemetry []).perform bot (fun _ => .reply whole) p).1 ∧
      cut <+: whole ∧ cut ≠ whole ∧
      ∃ f, ((Call.sendTelemetry []).perform bot (fun _ => .reply cut) p).1 = .error (.response f) := by
  intro interim refusal whole cut root bot p
  have digits (s : Bytes) (all : s.all isDigit = true) : ∀ d ∈ s, isDigit d = true :=
    List.all_eq_true.mp all
  have text (s : Bytes) (all : s.all FieldBlock.inText = true) : ∀ b ∈ s, FieldBlock.inText b = true :=
    List.all_eq_true.mp all
  have first : IsStatusLine ⟨false, 100⟩ (bytes "HTTP/1.1 100 Continue\r\n") :=
    @IsStatusLine.mk false (bytes "100") (bytes " Continue") crlf rfl (digits _ (by decide))
      (.inr ⟨bytes "Continue", rfl, text _ (by decide)⟩) (.inr rfl)
  have second : IsStatusLine ⟨false, 404⟩ (bytes "HTTP/1.1 404 \r\n") :=
    @IsStatusLine.mk false (bytes "404") (bytes " ") crlf rfl (digits _ (by decide))
      (.inr ⟨[], rfl, nofun⟩) (.inr rfl)
  have coding : IsFieldLine (bytes "transfer-encoding", bytes "chunked")
      (bytes "Transfer-Encoding: chunked\r\n") :=
    @IsFieldLine.mk (bytes "Transfer-Encoding") (bytes " chunked") crlf (by decide)
      (List.all_eq_true.mp (by decide)) (text _ (by decide)) (.inr rfl)
  have size : IsSizeLine 2 1 (bytes "2;x\r\n") :=
    @IsSizeLine.mk (bytes "2") [] (bytes ";x") 1 (by decide) (List.all_eq_true.mp (by decide)) (by decide)
      nofun (@IsExtension.words (bytes "x") (List.forall_mem_singleton.mpr (by decide)))
  have none_left : IsSizeLine 0 0 (bytes "0\r\n") :=
    @IsSizeLine.mk (bytes "0") [] [] 0 (by decide) (List.all_eq_true.mp (by decide)) (by decide) nofun .nil
  have trailer : IsTrailer (bytes "\r\n") :=
    @IsTrailer.mk 0 [] [] crlf [] [] .nil (by decide) (by decide) rfl .nil (Nat.le_refl 0) (.inr rfl)
  have chunks : IsChunks 1 (bytes "no") (bytes "2;x\r\nno\r\n0\r\n\r\n") :=
    @IsChunks.cons _ _ _ (bytes "no") _ _ size (by decide) (.last none_left trailer)
  have message : IsMessage 404 (bytes "no") whole :=
    .interim (@IsHead.mk _ _ [] _ [] crlf .nil first .nil (by decide) (.inr rfl)) rfl <|
      .final (@IsHead.mk _ [_] [] _ _ crlf .nil second (.cons coding .nil) (by decide) (.inr rfl)) rfl
        (by decide) rfl (.chunked rfl rfl (by decide) chunks (by decide))
  have verdict : IsVerdict ((Call.sendTelemetry []).perform bot (fun _ => .reply whole) p).1 := by
    obtain ⟨fault, made, -⟩ | ⟨url, q, made, -, -, out⟩ := bot.sendTelemetry_cases [] p
    · cases made
    · obtain rfl := Except.ok.inj made
      have response : IsResponse 404 (bytes "no") (whole ++ []) := .ended message
      rw [List.append_nil] at response
      have refused (url : Url) := @Exchange.judge_refused .post url _ _ _ response (.inr (by decide))
      rw [Call.perform, out, exchange_built rfl rfl (by
        rw [Exchange.build, if_neg (by decide), if_pos (by decide)]), refused]
      exact .refused
  have begins : cut <+: whole := by decide
  have short : cut ≠ whole := by decide
  exact ⟨message, verdict, begins, short, perform_of_cut message rfl verdict begins short rfl⟩

end Bot

end GuideRig
