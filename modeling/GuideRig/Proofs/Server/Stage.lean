/-
# GuideRig.Proofs.Server.Stage -- the stages of a server, and what has come of it by each of them

How far a server has come is its stage. What it has done of its own accord by then, all but accepting
clients, is a function of the stage alone (`account`): every reaction adds to it exactly its own effects
(`account_eq`), and so does every run (`account_steps`). What has been published and what the log has been
told are read off the account. A run goes on until the first incident that ends it
(`stage_steps_of_running`). Which stage it comes to is settled, where nothing fails and nobody gives the server
up, by whether it was run and whether the signal was given, in whatever order (`stage_of_waiting`).
-/

import GuideRig.Proofs.Server.Lifecycle

namespace GuideRig

/-- The place of a state in the order in which a server goes through them. -/
def ServerState.rank : ServerState → ℕ
  | starting => 0
  | listening => 1
  | stopped => 2

namespace Effect

/-- An effect of the server's own accord: all but to accept who connects. -/
def isOwn : Effect → Bool
  | serve _ => false
  | _ => true

/-- The state that an effect publishes. -/
def published? : Effect → Option ServerState
  | publish state => some state
  | _ => none

end Effect

namespace Server

/-! ## What comes with a stage -/

/-- The state that is published at a stage. -/
def stateAt : Stage → ServerState
  | .waiting | .discarded => .starting
  | .running => .listening
  | .ended _ => .stopped

/-- What a server has done of its own accord by its stage. -/
def account (s : Server) : List Effect :=
  match s.stage with
  | .waiting => []
  | .running => s.opening
  | .ended how => s.opening ++ s.closing how
  | .discarded => [.closeSocket]

/-- A server that has not been run. -/
def IsEarly (s : Server) : Prop := s.stage = .waiting ∨ s.stage = .discarded

theorem isOwn_of_isNotice {e : Effect} (h : IsNotice e) : e.isOwn = true := by
  obtain ⟨state, rfl⟩ | rfl | ⟨line, rfl, -⟩ := h <;> rfl

theorem filter_opening (s : Server) : s.opening.filter Effect.isOwn = s.opening := rfl

theorem filter_closing (s : Server) (how : Ending) :
    (s.closing how).filter Effect.isOwn = s.closing how := by
  rw [List.filter_eq_self]
  intro e member
  exact isOwn_of_isNotice (isNotice_closing s how e member)

/-! ## Reading an account -/

theorem logOf_append (a b : List Effect) : logOf (a ++ b) = logOf a ++ logOf b :=
  List.filterMap_append

/-- To accept a client is neither published nor told. -/
theorem published_filter (effects : List Effect) :
    (effects.filter Effect.isOwn).filterMap Effect.published? =
      effects.filterMap Effect.published? := by
  rw [List.filterMap_filter]
  congr 1
  funext e
  cases e <;> rfl

theorem logOf_filter (effects : List Effect) : logOf (effects.filter Effect.isOwn) = logOf effects := by
  unfold logOf
  rw [List.filterMap_filter]
  congr 1
  funext e
  cases e <;> rfl

/-- The states published by a stage are those on the way to its own. -/
theorem published_account (s : Server) :
    s.account.filterMap Effect.published? =
      [ServerState.listening, .stopped].take (stateAt s.stage).rank := by
  unfold account
  cases s.stage with
  | waiting => rfl
  | running => rfl
  | discarded => rfl
  | ended how => cases how <;> rfl

theorem exists_ended {stage : Stage} (stopped : stateAt stage = .stopped) :
    ∃ how, stage = .ended how := by
  cases stage with
  | ended how => exact ⟨how, rfl⟩
  | waiting | running | discarded => cases stopped

/-! ## One reaction -/

namespace Reacts

variable {s s' : Server} {i : Incident} {effects : List Effect}

/-- A reaction adds its own effects to the account. -/
theorem account_eq (h : Reacts s i s' effects) :
    s'.account = s.account ++ effects.filter Effect.isOwn := by
  cases h with
  | early | late | again | notes => exact (List.append_nil _).symm
  | accepts => exact (List.append_nil _).symm
  | discards waiting => simp only [account, waiting, Effect.isOwn, List.filter, List.nil_append]
  | begins waiting =>
    simp only [account, waiting, filter_opening, List.nil_append]
    rfl
  | passes waiting =>
    simp only [account, waiting, List.filter_append, filter_opening, filter_closing, List.nil_append]
    rfl
  | stops running | fails running | abandons running =>
    simp only [account, running, filter_closing]
    rfl

theorem address_eq (h : Reacts s i s' effects) : s'.address = s.address := by
  cases h <;> rfl

/-- The published state is that of the stage. -/
theorem state_eq (h : Reacts s i s' effects) (settled : s.state = stateAt s.stage) :
    s'.state = stateAt s'.stage := by
  cases h with
  | early | late | again | notes | accepts => exact settled
  | discards waiting =>
    show s.state = .starting
    rw [settled, waiting]
    rfl
  | begins | passes | stops | fails | abandons => rfl

/-- Only a run takes a server beyond the stages before it. -/
theorem isEarly (h : Reacts s i s' effects) (early : s.IsEarly) (other : i ≠ .run) : s'.IsEarly := by
  have idle : s.stage ≠ .running := by
    obtain waiting | discarded := early
    · rw [waiting]
      nofun
    · rw [discarded]
      nofun
  cases h with
  | early | late | notes => exact early
  | discards => exact .inr rfl
  | again | begins | passes => exact absurd rfl other
  | accepts running | stops running | fails running | abandons running => exact absurd running idle

end Reacts

/-! ## Runs -/

theorem steps_cons (s : Server) (i : Incident) (is : List Incident) :
    s.steps (i :: is) = (((s.step i).1.steps is).1, (s.step i).2 ++ ((s.step i).1.steps is).2) := rfl

/-- A run adds its own effects to the account. -/
theorem account_steps (s : Server) (is : List Incident) :
    (s.steps is).1.account = s.account ++ (s.steps is).2.filter Effect.isOwn := by
  induction is generalizing s with
  | nil => exact (List.append_nil _).symm
  | cons i is ih =>
    rw [steps_cons, ih, (s.reacts_step i).account_eq, List.filter_append, List.append_assoc]

/-- A server keeps its configuration and its address. -/
theorem place_steps (s : Server) (is : List Incident) :
    (s.steps is).1.config = s.config ∧ (s.steps is).1.address = s.address := by
  induction is generalizing s with
  | nil => exact ⟨rfl, rfl⟩
  | cons i is ih =>
    obtain ⟨config, address⟩ := ih (s.step i).1
    rw [(s.reacts_step i).config_eq] at config
    rw [(s.reacts_step i).address_eq] at address
    exact ⟨config, address⟩

theorem state_steps {s : Server} (settled : s.state = stateAt s.stage) (is : List Incident) :
    (s.steps is).1.state = stateAt (s.steps is).1.stage := by
  induction is generalizing s with
  | nil => exact settled
  | cons i is ih => exact ih ((s.reacts_step i).state_eq settled)

theorem isEarly_steps {s : Server} (early : s.IsEarly) {is : List Incident} (idle : .run ∉ is) :
    (s.steps is).1.IsEarly := by
  induction is generalizing s with
  | nil => exact early
  | cons i is ih =>
    obtain ⟨other, later⟩ := List.ne_and_not_mem_of_not_mem_cons idle
    exact ih ((s.reacts_step i).isEarly early (Ne.symm other)) later

theorem stage_stopped (s : Server) (how : Ending) : (s.stopped how).stage = .ended how := rfl

/-- Nothing comes of an incident after the end. -/
theorem steps_of_ended {s : Server} {how : Ending} (ended : s.stage = .ended how)
    (is : List Incident) : s.steps is = (s, []) := by
  induction is with
  | nil => rfl
  | cons i is ih =>
    have still : s.step i = (s, []) := by
      unfold step
      rw [ended]
    rw [steps_cons, still, ih]
    rfl

/-! ## The stage that a run comes to -/

end Server

/-- How an incident ends a run that is going on, if it does. -/
def Incident.ending? (stoppable : Bool) : Incident → Option Ending
  | .signal => if stoppable then some .shutdown else none
  | .failure cause => some (.failure cause)
  | .abandon => some .abandoned
  | .run | .connect _ => none

namespace Server

/-- An incident that ends a run that is going on ends it in its way, and any other leaves it going on. -/
theorem stage_step_of_running {s : Server} (running : s.stage = .running) (i : Incident) :
    (s.step i).1.stage = ((i.ending? s.stoppable).map Stage.ended).getD .running ∧
      (s.step i).1.stoppable = s.stoppable := by
  cases i with
  | run => simp only [step, running, Incident.ending?, Option.map_none, Option.getD_none, and_self]
  | connect client => simp only [step, running, Incident.ending?, Option.map_none, Option.getD_none, and_self]
  | failure cause => simp [step, running, Incident.ending?, stopped]
  | abandon => simp [step, running, Incident.ending?, stopped]
  | signal =>
    cases told : s.stoppable with
    | true => simp [step, running, told, Incident.ending?, stopped]
    | false => simp [step, running, told, Incident.ending?]

/-- A run goes on until the first incident that ends it. -/
theorem stage_steps_of_running {s : Server} (running : s.stage = .running) (is : List Incident) :
    (s.steps is).1.stage =
      ((is.findSome? (Incident.ending? s.stoppable)).map Stage.ended).getD .running := by
  induction is generalizing s with
  | nil => exact running
  | cons i is ih =>
    obtain ⟨stage, stoppable⟩ := stage_step_of_running running i
    rw [steps_cons, List.findSome?_cons]
    cases ends : i.ending? s.stoppable with
    | some how =>
      rw [ends] at stage
      rw [steps_of_ended stage]
      exact stage
    | none =>
      rw [ends] at stage
      have rest := ih stage
      rw [stoppable] at rest
      exact rest

/-- Every connection can be accepted, and nobody gives the server up. -/
def Undisturbed (is : List Incident) : Prop := (∀ cause, .failure cause ∉ is) ∧ .abandon ∉ is

theorem Undisturbed.of_cons {i : Incident} {is : List Incident} (h : Undisturbed (i :: is)) :
    Undisturbed is := by
  constructor
  · intro cause later
    exact h.1 cause (List.mem_cons_of_mem i later)
  · intro later
    exact h.2 (List.mem_cons_of_mem i later)

/-- Of undisturbed incidents only the signal ends a run that was told of one. -/
theorem Undisturbed.ending_eq (stoppable : Bool) {is : List Incident} (h : Undisturbed is) :
    is.findSome? (Incident.ending? stoppable) =
      if stoppable = true ∧ .signal ∈ is then some .shutdown else none := by
  induction is with
  | nil => simp
  | cons i is ih =>
    have later := ih h.of_cons
    rw [List.findSome?_cons]
    cases i with
    | run => simpa [Incident.ending?] using later
    | connect client => simpa [Incident.ending?] using later
    | failure cause => exact absurd List.mem_cons_self (h.1 cause)
    | abandon => exact absurd List.mem_cons_self h.2
    | signal =>
      cases stoppable with
      | true => simp [Incident.ending?]
      | false => simpa [Incident.ending?] using later

/-- A server that is running goes on until the signal, if it was told of one. -/
theorem stage_of_running {s : Server} (running : s.stage = .running) {is : List Incident}
    (undisturbed : Undisturbed is) :
    (s.steps is).1.stage =
      if s.stoppable = true ∧ .signal ∈ is then .ended .shutdown else .running := by
  rw [stage_steps_of_running running, undisturbed.ending_eq]
  split
  · rfl
  · rfl

/-- A server that waits goes no further unless it is run. Run and signal together stop it, whichever of them
comes first. -/
theorem stage_of_waiting {s : Server} (waiting : s.stage = .waiting) {is : List Incident}
    (undisturbed : Undisturbed is) :
    (s.steps is).1.stage =
      if .run ∈ is then
        if s.stoppable = true ∧ (s.signalled = true ∨ .signal ∈ is) then .ended .shutdown else .running
      else .waiting := by
  induction is generalizing s with
  | nil => simpa [steps] using waiting
  | cons i is ih =>
    have rest := undisturbed.of_cons
    rw [steps_cons]
    cases i with
    | connect client =>
      have still : s.step (.connect client) = (s, []) := by simp only [step, waiting]
      simpa [still] using ih waiting rest
    | failure cause => exact absurd List.mem_cons_self (undisturbed.1 cause)
    | abandon => exact absurd List.mem_cons_self undisturbed.2
    | signal =>
      have notes : s.step .signal = ({ s with signalled := true }, []) := by simp only [step, waiting]
      have next := ih (s := { s with signalled := true }) waiting rest
      simpa [notes] using next
    | run =>
      by_cases due : s.isDue = true
      · have passes : s.step .run = (s.stopped .shutdown, s.opening ++ s.closing .shutdown) := by
          simp only [step, waiting, due, if_true]
        have both : s.stoppable = true ∧ s.signalled = true := by simpa [isDue] using due
        rw [passes, steps_of_ended (stage_stopped _ _)]
        simp only [both, List.mem_cons_self, true_or, and_self, if_true]
        rfl
      · have begins : s.step .run = (s.running, s.opening) := by
          simp only [step, waiting, due, if_false, Bool.false_eq_true]
        -- a signal that was given before would have made the end due
        have fresh : s.stoppable = true → s.signalled = false := by simpa [isDue] using due
        have next := stage_of_running (s := s.running) rfl rest
        rw [begins, next]
        by_cases told : s.stoppable = true
        · simp [told, fresh told, running]
        · simp [told, running]

end Server

end GuideRig
