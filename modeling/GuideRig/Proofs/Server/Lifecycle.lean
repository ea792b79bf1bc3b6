/-
# GuideRig.Proofs.Server.Lifecycle -- the reactions of a server

`Reacts` has one rule for each way in which a server takes an incident, with the stage that it has to be
at, the server afterwards and the effects. A step is a reaction (`reacts_step`), and what holds of every
reaction is proved by cases over the rules: a server keeps its configuration, accepts nobody but who
connects, and never warns.
-/

import Mathlib.Tactic.Common
import GuideRig.Server.Lifecycle

namespace GuideRig.Server

/-! ## Reactions as rules -/

/-- A server takes an incident: how it stands afterwards, and the effects. -/
inductive Reacts (s : Server) : Incident → Server → List Effect → Prop
  | early {i : Incident} : s.stage = .waiting → i ≠ .run → i ≠ .signal → i ≠ .abandon →
      Reacts s i s []
  | late {i : Incident} : s.stage ≠ .waiting → s.stage ≠ .running → Reacts s i s []
  | again : s.stage = .running → Reacts s .run s []
  | notes : s.stage = .waiting ∨ (s.stage = .running ∧ s.stoppable = false) →
      Reacts s .signal { s with signalled := true } []
  | discards : s.stage = .waiting → Reacts s .abandon { s with stage := .discarded } [.closeSocket]
  | begins : s.stage = .waiting → s.isDue = false → Reacts s .run s.running s.opening
  | passes : s.stage = .waiting → s.isDue = true →
      Reacts s .run (s.stopped .shutdown) (s.opening ++ s.closing .shutdown)
  | accepts {client : Client} : s.stage = .running → Reacts s (.connect client) s [.serve client]
  | stops : s.stage = .running → s.stoppable = true →
      Reacts s .signal ({ s with signalled := true }.stopped .shutdown) (s.closing .shutdown)
  | fails {cause : IoError} : s.stage = .running →
      Reacts s (.failure cause) (s.stopped (.failure cause)) (s.closing (.failure cause))
  | abandons : s.stage = .running → Reacts s .abandon (s.stopped .abandoned) (s.closing .abandoned)

/-- Every step is a reaction. -/
theorem reacts_step (s : Server) (i : Incident) : Reacts s i (s.step i).1 (s.step i).2 := by
  obtain ⟨config, address, stoppable, signalled, stage, state⟩ := s
  cases stage with
  | waiting =>
    cases i with
    | run =>
      cases stoppable with
      | false => exact .begins rfl rfl
      | true =>
        cases signalled with
        | false => exact .begins rfl rfl
        | true => exact .passes rfl rfl
    | signal => exact .notes (.inl rfl)
    | connect client => exact .early rfl nofun nofun nofun
    | failure cause => exact .early rfl nofun nofun nofun
    | abandon => exact .discards rfl
  | running =>
    cases i with
    | run => exact .again rfl
    | signal =>
      cases stoppable with
      | false => exact .notes (.inr ⟨rfl, rfl⟩)
      | true => exact .stops rfl rfl
    | connect client => exact .accepts rfl
    | failure cause => exact .fails rfl
    | abandon => exact .abandons rfl
  | ended how => exact .late nofun nofun
  | discarded => exact .late nofun nofun

/-! ## What every reaction keeps -/

/-- An effect at the begin or the end of a run. -/
def IsNotice (e : Effect) : Prop :=
  (∃ state, e = .publish state) ∨ e = .closeSocket ∨ ∃ line, e = .log line ∧ line.level ≠ .warn

theorem isNotice_opening (s : Server) : ∀ e ∈ s.opening, IsNotice e := by
  unfold opening
  simp only [List.forall_mem_cons]
  exact ⟨.inl ⟨_, rfl⟩, .inr (.inr ⟨_, rfl, nofun⟩), List.forall_mem_nil _⟩

theorem level_endingLines (s : Server) (how : Ending) : ∀ line ∈ s.endingLines how, line.level ≠ .warn := by
  cases how with
  | shutdown => exact List.forall_mem_singleton.mpr nofun
  | failure cause => exact List.forall_mem_singleton.mpr nofun
  | abandoned => exact List.forall_mem_nil _

theorem isNotice_closing (s : Server) (how : Ending) : ∀ e ∈ s.closing how, IsNotice e := by
  unfold closing
  simp only [List.cons_append, List.forall_mem_cons, List.forall_mem_append, List.forall_mem_map]
  refine ⟨.inr (.inl rfl), ?_, .inl ⟨_, rfl⟩, .inr (.inr ⟨_, rfl, nofun⟩), List.forall_mem_nil _⟩
  intro line told
  exact .inr (.inr ⟨line, rfl, level_endingLines s how line told⟩)

namespace Reacts

variable {s s' : Server} {i : Incident} {effects : List Effect}

theorem config_eq (h : Reacts s i s' effects) : s'.config = s.config := by
  cases h <;> rfl

/-- Apart from notices there is one effect: who connects may be accepted. -/
theorem isNotice_or (h : Reacts s i s' effects) :
    (∀ e ∈ effects, IsNotice e) ∨ ∃ client, i = .connect client ∧ effects = [.serve client] := by
  cases h with
  | accepts running => exact .inr ⟨_, rfl, rfl⟩
  | early | late | again | notes => exact .inl (List.forall_mem_nil _)
  | discards => exact .inl (List.forall_mem_singleton.mpr (.inr (.inl rfl)))
  | begins => exact .inl (isNotice_opening s)
  | passes =>
    exact .inl (List.forall_mem_append.mpr ⟨isNotice_opening s, isNotice_closing s .shutdown⟩)
  | stops => exact .inl (isNotice_closing s .shutdown)
  | fails => exact .inl (isNotice_closing s _)
  | abandons => exact .inl (isNotice_closing s .abandoned)

/-- Nobody is accepted but who connects. -/
theorem eq_connect {client : Client} (h : Reacts s i s' effects) (served : .serve client ∈ effects) :
    i = .connect client := by
  rcases h.isNotice_or with notices | ⟨other, rfl, rfl⟩
  · obtain ⟨_, ⟨⟩⟩ | ⟨⟨⟩⟩ | ⟨_, ⟨⟩, _⟩ := notices _ served
  · obtain ⟨⟩ := List.mem_singleton.mp served
    rfl

/-- A server has information and errors to tell, and no warnings. -/
theorem level_ne_warn {line : LogLine} (h : Reacts s i s' effects) (told : .log line ∈ effects) :
    line.level ≠ .warn := by
  rcases h.isNotice_or with notices | ⟨other, rfl, rfl⟩
  · obtain ⟨_, ⟨⟩⟩ | ⟨⟨⟩⟩ | ⟨_, ⟨⟩, quiet⟩ := notices _ told
    exact quiet
  · cases List.mem_singleton.mp told

end Reacts

end GuideRig.Server
