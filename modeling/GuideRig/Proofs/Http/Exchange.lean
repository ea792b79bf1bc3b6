/-
# GuideRig.Proofs.Http.Exchange -- the places where an exchange can end

An exchange passes a number of points at each of which it can end: the URL may not be made, it may not
be reachable, nobody may be there, the request may not be one, what comes back may be no response, and
its status may refuse. `Attempted` has one rule for each of these points; it says which request has left
by then and what the exchange reports. The first four leave nothing on the wire. What a response is, and
with it what an answer is (`Answered`), is said by the grammar of responses and not by their reader.
-/

import GuideRig.Http.Exchange
import GuideRig.Proofs.Http.Response

namespace GuideRig

open Ascii Http

/-- What an exchange is asked to do. -/
structure Task where
  method : Method
  /-- Where the request goes, or why that cannot be told. -/
  url : Except UrlFault Url
  headers : List HeaderField
  body : Bytes

/-- A connection delivers a complete response whose final status reports success. -/
def Answered (answer : Answer) : Prop :=
  ∃ bytes status content, answer = .reply bytes ∧ IsResponse status content bytes ∧
    200 ≤ status ∧ status < 300

/-! ## Ends of an exchange -/

/-- A task meets an answer: the request that leaves, if one does, and what is reported. Where what comes back
is no response, the reader of responses tells the cause. -/
inductive Attempted (task : Task) : Answer → Option Request → Except Error Unit → Prop
  | unresolved {answer : Answer} {fault : UrlFault} :
      task.url = .error fault → Attempted task answer none (.error (.url fault))
  | unsupported {answer : Answer} {url : Url} :
      task.url = .ok url → ¬ Exchange.isReachable url →
      Attempted task answer none (.error (.unsupportedUrl url.text))
  | unreachable {cause : IoError} {url : Url} :
      task.url = .ok url → Exchange.isReachable url →
      Attempted task (.unreachable cause) none (.error (.io cause))
  | unbuilt {bytes : Bytes} {url : Url} {fault : RequestFault} :
      task.url = .ok url → Exchange.isReachable url →
      Exchange.build task.method url task.headers task.body = .error fault →
      Attempted task (.reply bytes) none (.error (.request fault))
  | unread {bytes : Bytes} {url : Url} {request : Request} {fault : ResponseFault} :
      task.url = .ok url → Exchange.isReachable url →
      Exchange.build task.method url task.headers task.body = .ok request →
      (∀ status content, ¬ IsResponse status content bytes) →
      ResponseReader.read bytes = .error fault →
      Attempted task (.reply bytes) (some request) (.error (.response fault))
  | refused {bytes : Bytes} {url : Url} {request : Request} {status : Nat} {content : Bytes} :
      task.url = .ok url → Exchange.isReachable url →
      Exchange.build task.method url task.headers task.body = .ok request →
      IsResponse status content bytes → status < 200 ∨ 300 ≤ status →
      Attempted task (.reply bytes) (some request) (.error (.status task.method url.text status))
  | done {bytes : Bytes} {url : Url} {request : Request} {status : Nat} {content : Bytes} :
      task.url = .ok url → Exchange.isReachable url →
      Exchange.build task.method url task.headers task.body = .ok request →
      IsResponse status content bytes → 200 ≤ status → status < 300 →
      Attempted task (.reply bytes) (some request) (.ok ())

namespace Attempted

variable {task : Task} {answer : Answer}

/-- An exchange that reports success has sent its request, and was answered. -/
theorem of_ok {sent : Option Request} (h : Attempted task answer sent (.ok ())) :
    Answered answer ∧ ∃ request, sent = some request := by
  cases h with
  | done url reach built answered low high =>
    exact ⟨⟨_, _, _, rfl, answered, low, high⟩, _, rfl⟩

/-- An exchange that fails after its request has left was not answered. -/
theorem not_answered {request : Request} {e : Error}
    (h : Attempted task answer (some request) (.error e)) : ¬ Answered answer := by
  rintro ⟨bytes, status, content, rfl, answered, low, high⟩
  cases h with
  | unread url reach built missing failed => exact missing _ _ answered
  | refused url reach built other refuses =>
    obtain ⟨rfl, -⟩ := answered.unique other
    omega

/-- A request that has left is the one built for the task, and its URL is one that can be reached. -/
theorem left {request : Request} {result : Except Error Unit}
    (h : Attempted task answer (some request) result) :
    ∃ url, task.url = .ok url ∧ Exchange.isReachable url ∧
      Exchange.build task.method url task.headers task.body = .ok request := by
  cases h with
  | unread url reach built missing failed => exact ⟨_, url, reach, built⟩
  | refused url reach built other refuses => exact ⟨_, url, reach, built⟩
  | done url reach built answered low high => exact ⟨_, url, reach, built⟩

theorem built {request : Request} {result : Except Error Unit}
    (h : Attempted task answer (some request) result) :
    ∃ url, task.url = .ok url ∧
      Exchange.build task.method url task.headers task.body = .ok request := by
  obtain ⟨url, made, -, built⟩ := h.left
  exact ⟨url, made, built⟩

end Attempted

namespace Exchange

/-! ## Building requests -/

/-- A request that can be built says what its task does. -/
theorem eq_of_build {method : Method} {url : Url} {headers : List HeaderField} {body : Bytes}
    {request : Request} (h : build method url headers body = .ok request) :
    request = ⟨method, url.target, hostField url :: headers ++ bodyFields body, body⟩ := by
  rw [build] at h
  split at h
  · cases h
  · split at h
    · exact (Except.ok.inj h).symm
    · cases h

theorem inHeaderValue_iff {b : UInt8} :
    inHeaderValue b = true ↔ b = byte '\t' ∨ 0x20 ≤ b.toNat ∧ b.toNat ≠ 0x7F := by
  have delete : (0x7F : UInt8).toNat = 0x7F := rfl
  simp only [inHeaderValue, Bool.or_eq_true, Bool.and_eq_true, beq_iff_eq, bne_iff_ne, ne_eq,
    decide_eq_true_eq, UInt8.le_iff_toNat_le, ← UInt8.toNat_inj, delete]
  rfl

/-- The values that a request is built with may all stand in a header. -/
theorem inHeaderValue_of_build {method : Method} {url : Url} {headers : List HeaderField} {body : Bytes}
    {request : Request} (built : build method url headers body = .ok request) {h : HeaderField}
    (listed : h ∈ headers) {b : UInt8} (hb : b ∈ h.value) : inHeaderValue b = true := by
  unfold build at built
  split at built
  · cases built
  split at built
  · rename_i fit
    exact List.all_eq_true.mp (List.all_eq_true.mp fit h listed) b hb
  · cases built

/-- Where all values may stand in a header, only the length of the target can be wrong. -/
theorem longestTarget_lt_of_build {method : Method} {url : Url} {headers : List HeaderField}
    {body : Bytes} {fault : RequestFault} (unbuilt : build method url headers body = .error fault)
    (fit : ∀ h ∈ headers, ∀ b ∈ h.value, inHeaderValue b = true) :
    longestTarget < url.target.length := by
  unfold build at unbuilt
  split at unbuilt
  · rename_i long
    exact long
  · have all : headers.all (fun h => h.value.all inHeaderValue) = true :=
      List.all_eq_true.mpr fun h listed => List.all_eq_true.mpr (fit h listed)
    rw [if_pos all] at unbuilt
    cases unbuilt

/-! ## Judging responses -/

section Judge

variable {method : Method} {url : Url} {bytes content : Bytes} {status : Nat}

theorem judge_unread {fault : ResponseFault} (read : ResponseReader.read bytes = .error fault) :
    judge method url bytes = .error (.response fault) := by
  rw [judge, read]

theorem judge_refused (response : IsResponse status content bytes)
    (refuses : status < 200 ∨ 300 ≤ status) :
    judge method url bytes = .error (.status method url.text status) := by
  have refused : ¬ Status.isSuccess status = true := by
    intro success
    simp only [Status.isSuccess, Bool.and_eq_true, decide_eq_true_eq] at success
    omega
  rw [judge, ResponseReader.read_eq_ok_iff.mpr response]
  exact if_neg refused

theorem judge_done (response : IsResponse status content bytes) (low : 200 ≤ status)
    (high : status < 300) : judge method url bytes = .ok content := by
  have success : Status.isSuccess status = true := by
    simp only [Status.isSuccess, Bool.and_eq_true, decide_eq_true_eq]
    exact ⟨low, high⟩
  rw [judge, ResponseReader.read_eq_ok_iff.mpr response]
  exact if_pos success

/-- What a connection delivers is no response, or one whose status refuses, or one that succeeds. -/
theorem response_cases (bytes : Bytes) :
    ((∀ status content, ¬ IsResponse status content bytes) ∧
      ∃ fault, ResponseReader.read bytes = .error fault) ∨
    ∃ status content, IsResponse status content bytes ∧
      ((status < 200 ∨ 300 ≤ status) ∨ 200 ≤ status ∧ status < 300) := by
  cases read : ResponseReader.read bytes with
  | error fault =>
    refine .inl ⟨fun status content response => ?_, fault, rfl⟩
    rw [ResponseReader.read_eq_ok_iff.mpr response] at read
    cases read
  | ok response =>
    obtain ⟨status, content⟩ := response
    exact .inr ⟨status, content, ResponseReader.read_eq_ok_iff.mp read, by omega⟩

/-- A verdict of success is passed on an answer of success only. -/
theorem answered_of_judge (judged : judge method url bytes = .ok content) :
    Answered (.reply bytes) := by
  obtain ⟨-, fault, unread⟩ | ⟨status, content', response, refuses | ⟨low, high⟩⟩ := response_cases bytes
  · rw [judge_unread unread] at judged
    cases judged
  · rw [judge_refused response refuses] at judged
    cases judged
  · exact ⟨bytes, status, content', rfl, response, low, high⟩

end Judge

/-! ## Sending -/

/-- Sending to a URL ends by one of the rules. -/
theorem attempted_send {task : Task} {url : Url} (h : task.url = .ok url) (answer : Answer) :
    Attempted task answer (send task.method url task.headers task.body answer).sent
      ((send task.method url task.headers task.body answer).outcome.map fun _ => ()) := by
  unfold send
  by_cases reach : isReachable url
  · rw [if_neg (by rw [reach]; decide)]
    cases answer with
    | unreachable cause => exact .unreachable h reach
    | reply bytes =>
      cases built : build task.method url task.headers task.body with
      | error f => exact .unbuilt h reach built
      | ok request =>
        -- from here on the request has left, and the response decides
        show Attempted task _ (some request) ((judge task.method url bytes).map fun _ => ())
        obtain ⟨missing, fault, unread⟩ | ⟨status, content, response, refuses | ⟨low, high⟩⟩ :=
          response_cases bytes
        · rw [judge_unread unread]
          exact .unread h reach built missing unread
        · rw [judge_refused response refuses]
          exact .refused h reach built response refuses
        · rw [judge_done response low high]
          exact .done h reach built response low high
  · rw [if_pos (by simpa using reach)]
    exact .unsupported h reach

/-- The rules are exactly what sending does, so that no two of them ever disagree. -/
theorem attempted_iff {task : Task} {url : Url} (h : task.url = .ok url) {answer : Answer}
    {sent : Option Request} {result : Except Error Unit} : Attempted task answer sent result ↔
      sent = (send task.method url task.headers task.body answer).sent ∧
        result = (send task.method url task.headers task.body answer).outcome.map fun _ => () := by
  constructor
  · intro attempt
    cases attempt with
    | unresolved made =>
      rw [made] at h
      cases h
    | unsupported made reach =>
      obtain rfl := Except.ok.inj (made.symm.trans h)
      simp [send, reach, Except.map]
    | unreachable made reach =>
      obtain rfl := Except.ok.inj (made.symm.trans h)
      simp [send, reach, Except.map]
    | unbuilt made reach built =>
      obtain rfl := Except.ok.inj (made.symm.trans h)
      simp [send, reach, built, Except.map]
    | unread made reach built missing unread =>
      obtain rfl := Except.ok.inj (made.symm.trans h)
      simp [send, reach, built, judge_unread unread, Except.map]
    | refused made reach built response refuses =>
      obtain rfl := Except.ok.inj (made.symm.trans h)
      simp [send, reach, built, judge_refused response refuses, Except.map]
    | done made reach built response low high =>
      obtain rfl := Except.ok.inj (made.symm.trans h)
      simp [send, reach, built, judge_done response low high, Except.map]
  · rintro ⟨rfl, rfl⟩
    exact attempted_send h answer

/-- An exchange that succeeds has tried a connection. -/
theorem tried_of_ok {method : Method} {url : Url} {headers : List HeaderField} {body : Bytes}
    {answer : Answer} {content : Bytes}
    (h : (send method url headers body answer).outcome = .ok content) :
    (send method url headers body answer).tried = true := by
  unfold send at h ⊢
  split at h
  · cases h
  · rename_i reach
    rw [if_neg reach]
    cases answer with
    | unreachable cause => rfl
    | reply bytes =>
      cases build method url headers body with
      | error f => rfl
      | ok request => rfl

end Exchange

end GuideRig
