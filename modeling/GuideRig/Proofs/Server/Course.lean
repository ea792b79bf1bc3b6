/-
# GuideRig.Proofs.Server.Course -- the course of a server, from its binding to its stop

Whatever happens to a server and on its connections, the state that it publishes only moves forward, and
its news is told in one order. A server goes through its incidents as if nothing were asked, so both are
read off the stage that the incidents lead to (`reading_eq`, `states_eq`, `news_eq`); of what is said on
the side of a request nothing is at the level of the server's own news (`level_handle`). `Course` is what
holds after any happenings, and `course` that it does.
-/

import GuideRig.Proofs.Server.Isolation
import GuideRig.Proofs.Server.Stage

namespace GuideRig

/-! ## News of the server -/

/-- The line that a reaction writes, if it is at the level of news. -/
def Reaction.news? : Reaction → Option LogLine
  | .log line | .effect (.log line) => if line.level = .info then some line else none
  | _ => none

/-- What is said about the file of a request is for those who look into the details. -/
theorem Content.level_notes {content : Content} {r : Request} {line : LogLine}
    (h : line ∈ content.notes r) : line.level = .debug := by
  unfold notes at h
  split at h
  · cases h
  · obtain ⟨path, -, rfl⟩ := Option.map_eq_some_iff.mp (Option.mem_toList.mp h)
    rfl

/-- Nothing that is said of a request is news of the server. -/
theorem Connection.level_handle {content : Content} {client : Client} {files : Files} {c : Connection}
    {r : Request} {line : LogLine} (h : line ∈ (handle content client files c r).2.2) :
    line.level ≠ .info := by
  unfold handle at h
  cases c with
  | absent => cases h
  | closed => cases h
  | accepted =>
    dsimp only at h
    split at h
    · rw [Content.level_notes h]
      nofun
    · rcases List.mem_append.mp h with note | warning
      · rw [Content.level_notes note]
        nofun
      · rw [List.mem_singleton.mp warning]
        nofun

namespace Service

/-- The incidents of a run. -/
def incidents (hs : List Happening) : List Incident := hs.filterMap Happening.incident?

theorem mem_incidents {hs : List Happening} {i : Incident} : i ∈ incidents hs ↔ .incident i ∈ hs := by
  unfold incidents
  rw [List.mem_filterMap]
  constructor
  · rintro ⟨h, member, found⟩
    cases h with
    | incident j =>
      obtain rfl := Option.some.inj found
      exact member
    | request client files r => cases found
  · intro member
    exact ⟨_, member, rfl⟩

theorem steps_cons (s : Service) (h : Happening) (hs : List Happening) :
    s.steps (h :: hs) = (((s.step h).1.steps hs).1, (s.step h).2 ++ ((s.step h).1.steps hs).2) := rfl

theorem steps_append (s : Service) (hs later : List Happening) :
    s.steps (hs ++ later) =
      (((s.steps hs).1.steps later).1, (s.steps hs).2 ++ ((s.steps hs).1.steps later).2) := by
  induction hs generalizing s with
  | nil => rfl
  | cons h hs ih => simp only [List.cons_append, steps_cons, ih, List.append_assoc]

/-- The news of one step is told by the server itself. -/
theorem news_step (s : Service) (h : Happening) :
    (s.step h).2.filterMap Reaction.news? =
      (Server.logOf ((s.step h).2.filterMap Reaction.effect?)).filter (·.level = .info) := by
  cases h with
  | incident i =>
    rw [effects_incident]
    show ((s.server.step i).2.map Reaction.effect).filterMap Reaction.news? = _
    unfold Server.logOf
    rw [List.filterMap_map, List.filter_filterMap]
    congr 1
    funext e
    cases e with
    | log line => simp only [Function.comp, Reaction.news?, Option.filter, decide_eq_true_eq]
    | publish state | closeSocket | serve client => rfl
  | request client files r =>
    rw [effects_request]
    show ((Connection.handle _ client files _ r).2.2.map Reaction.log ++
      [Reaction.answer client _]).filterMap Reaction.news? = []
    rw [List.filterMap_eq_nil_iff]
    intro reaction member
    rcases List.mem_append.mp member with said | answered
    · obtain ⟨line, told, rfl⟩ := List.mem_map.mp said
      exact if_neg (Connection.level_handle told)
    · rw [List.mem_singleton.mp answered]
      rfl

theorem news_steps (s : Service) (hs : List Happening) :
    (s.steps hs).2.filterMap Reaction.news? =
      (Server.logOf ((s.steps hs).2.filterMap Reaction.effect?)).filter (·.level = .info) := by
  induction hs generalizing s with
  | nil => rfl
  | cons h hs ih =>
    simp only [steps_cons, List.filterMap_append, Server.logOf_append, List.filter_append, ih,
      news_step]

/-- Who has no connection to a server at its end will not have one later. -/
theorem closed_of_ended {s : Service} {how : Ending} (ended : s.server.stage = .ended how)
    (hs : List Happening) (client : Client) :
    .effect (.serve client) ∉ (s.steps hs).2 ∧
      (s.connections client = .absent → (s.steps hs).1.connections client = .absent) := by
  induction hs generalizing s with
  | nil => exact ⟨List.not_mem_nil, id⟩
  | cons h hs ih =>
    rw [steps_cons]
    cases h with
    | incident i =>
      have still : s.server.step i = (s.server, []) := by
        simp only [Server.step, ended]
      have same : s.step (.incident i) = (s, []) := by
        simp only [step, still, accepted, List.map_nil]
      rw [same]
      exact ih ended
    | request other files r =>
      obtain ⟨quiet, absent⟩ := ih (s := (s.step (.request other files r)).1) ended
      constructor
      · intro member
        rcases List.mem_append.mp member with now | later
        · rcases List.mem_append.mp now with said | answered
          · obtain ⟨line, -, ⟨⟩⟩ := List.mem_map.mp said
          · cases List.mem_singleton.mp answered
        · exact quiet later
      · intro none_yet
        refine absent ?_
        by_cases own : other = client
        · subst own
          rw [connections_request_self, none_yet]
          rfl
        · rw [connections_request own]
          exact none_yet

/-! ## The course of a server -/

/-- A server that has just been bound, and nobody is connected to it. -/
def create (config : ServerConfig) (address : SocketAddress) (stoppable : Bool) : Service :=
  ofServer (.create config address stoppable)

/-- The state that is read off a server after some happenings. -/
def reading (s : Service) (hs : List Happening) : ServerState := (s.steps hs).1.server.state

/-- The states that are published in the meantime. -/
def states (s : Service) (hs : List Happening) : List ServerState :=
  ((s.steps hs).2.filterMap Reaction.effect?).filterMap Effect.published?

/-- The news that is written in the meantime. -/
def news (s : Service) (hs : List Happening) : List LogLine :=
  (s.steps hs).2.filterMap Reaction.news?

/-- The news of a whole life, under the name of the server. -/
def lifeLines (config : ServerConfig) (address : SocketAddress) : List LogLine :=
  ["Server running at http://" ++ address.text, "Received shutdown signal", "Server stopped"].map
    fun text => ⟨.info, .server, config.logName address ++ " => " ++ text⟩

/-- None of the news is like another. -/
theorem nodup_lifeLines (config : ServerConfig) (address : SocketAddress) :
    (lifeLines config address).Nodup := by
  unfold lifeLines
  refine List.Nodup.map ?_ ?_
  · intro a b same
    have texts := congrArg (String.toList ∘ LogLine.message) same
    simp only [Function.comp, String.toList_append, List.append_cancel_left_eq] at texts
    exact String.toList_injective texts
  · -- the first line begins with other letters than the third, whatever the address
    have seventh : ("Server running at http://" ++ address.text).toList[7]? = some 'r' := by
      rw [String.toList_append]
      rfl
    have first (b : String) (other : b.toList[7]? ≠ some 'r') :
        "Server running at http://" ++ address.text ≠ b := by
      rintro rfl
      exact other seventh
    simp only [List.nodup_cons, List.mem_cons, List.not_mem_nil, or_false, not_or]
    exact ⟨⟨first _ (by decide), first _ (by decide)⟩, by decide, not_false, List.nodup_nil⟩

section Created

variable {config : ServerConfig} {address : SocketAddress} {stoppable : Bool}

/-- What is read is the state of the stage that the incidents lead to. -/
theorem reading_eq (hs : List Happening) :
    (create config address stoppable).reading hs =
      Server.stateAt ((Server.create config address stoppable).steps (incidents hs)).1.stage := by
  unfold reading
  rw [(server_steps _ hs).1]
  exact Server.state_steps rfl _

theorem states_eq (hs : List Happening) :
    (create config address stoppable).states hs =
      [ServerState.listening, .stopped].take ((create config address stoppable).reading hs).rank := by
  have account := Server.account_steps (.create config address stoppable) (incidents hs)
  rw [reading_eq, ← Server.published_account, account]
  unfold states
  rw [(server_steps _ hs).2]
  exact (Server.published_filter _).symm

theorem news_eq (hs : List Happening) :
    (create config address stoppable).news hs =
      (Server.logOf ((Server.create config address stoppable).steps (incidents hs)).1.account).filter
        (·.level = .info) := by
  have account := Server.account_steps (.create config address stoppable) (incidents hs)
  rw [account]
  unfold news
  rw [news_steps, (server_steps _ hs).2]
  show _ = (Server.logOf (List.filter _ _)).filter _
  rw [Server.logOf_filter]
  rfl

/-- What happens later is added to what has been published. -/
theorem states_append (s : Service) (earlier later : List Happening) :
    s.states earlier <+: s.states (earlier ++ later) := by
  unfold states
  rw [steps_append, List.filterMap_append, List.filterMap_append]
  exact List.prefix_append _ _

/-- The news of a life is told under the name that the server goes by from beginning to end. -/
theorem lifeLines_eq (is : List Incident) :
    let s := ((Server.create config address stoppable).steps is).1
    lifeLines config address = [s.runningLine, s.signalLine, s.stoppedLine] := by
  intro s
  obtain ⟨named, placed⟩ := (Server.create config address stoppable).place_steps is
  unfold Server.runningLine Server.signalLine Server.stoppedLine Server.line
  rw [named, placed]
  rfl

/-- An undisturbed server waits, listens or has been stopped by its signal, and its news is as long. -/
theorem undisturbed_cases {hs : List Happening} (undisturbed : Server.Undisturbed (incidents hs)) :
    (.incident .run ∉ hs ∧ (create config address stoppable).reading hs = .starting ∧
      (create config address stoppable).news hs = []) ∨
    (¬ (stoppable = true ∧ .incident .signal ∈ hs) ∧
      (create config address stoppable).reading hs = .listening ∧
      (create config address stoppable).news hs = (lifeLines config address).take 1) ∨
    (stoppable = true ∧ .incident .run ∈ hs ∧ .incident .signal ∈ hs ∧
      (create config address stoppable).reading hs = .stopped ∧
      (create config address stoppable).news hs = lifeLines config address) := by
  have comes : ((Server.create config address stoppable).steps (incidents hs)).1.stage =
      if .run ∈ incidents hs then
        if stoppable = true ∧ .signal ∈ incidents hs then .ended .shutdown else .running
      else .waiting := by
    rw [Server.stage_of_waiting rfl undisturbed]
    simp [Server.create]
  simp only [← mem_incidents]
  rw [reading_eq, news_eq, Server.account, lifeLines_eq (incidents hs)]
  by_cases run : .run ∈ incidents hs
  · rw [if_pos run] at comes
    by_cases both : stoppable = true ∧ .signal ∈ incidents hs
    · rw [if_pos both] at comes
      rw [comes]
      exact .inr (.inr ⟨both.1, run, both.2, rfl, rfl⟩)
    · rw [if_neg both] at comes
      rw [comes]
      exact .inr (.inl ⟨both, rfl, rfl⟩)
  · rw [if_neg run] at comes
    rw [comes]
    exact .inl ⟨run, rfl, rfl⟩

end Created

/-- What holds of a server from its binding on, after whatever has happened to it and on its
connections. -/
structure Course (config : ServerConfig) (address : SocketAddress) (stoppable : Bool)
    (hs : List Happening) (s : Service) : Prop where
  /-- The state that is read only moves forward. -/
  forward : ∀ earlier, earlier <+: hs → (s.reading earlier).rank ≤ (s.reading hs).rank
  /-- The states are published in their order, and none is left out. -/
  published : s.states hs <+: [.listening, .stopped]
  /-- What is read is what was published last. -/
  latest : s.reading hs = (s.states hs).getLast?.getD .starting
  /-- Nothing moves until the server is run. -/
  waits : .incident .run ∉ hs → s.reading hs = .starting
  /-- A server is stopped by its run and a signal that it was told of, in whatever order. -/
  stops : Server.Undisturbed (incidents hs) →
    (s.reading hs = .stopped ↔ stoppable = true ∧ .incident .run ∈ hs ∧ .incident .signal ∈ hs)
  /-- Nobody is accepted after that. -/
  closed : s.reading hs = .stopped → ∀ later client,
    .effect (.serve client) ∉ ((s.steps hs).1.steps later).2 ∧
    ((s.steps hs).1.connections client = .absent →
      (s.steps (hs ++ later)).1.connections client = .absent)
  /-- The news is told in its order. -/
  told : Server.Undisturbed (incidents hs) → s.news hs <+: lifeLines config address
  /-- No news is told twice. -/
  once : (lifeLines config address).Nodup
  /-- All of the news is told by the end. -/
  complete : Server.Undisturbed (incidents hs) →
    (s.reading hs = .stopped ↔ s.news hs = lifeLines config address)

/-- A server takes this course from its binding on, whatever it is configured to do, whether or not it was
told of a signal, and whatever happens. -/
theorem course (config : ServerConfig) (address : SocketAddress) (stoppable : Bool)
    (hs : List Happening) : Course config address stoppable hs (create config address stoppable) where
  forward := by
    rintro earlier ⟨later, rfl⟩
    have lengths := (states_append (create config address stoppable) earlier later).length_le
    have short (state : ServerState) : state.rank ≤ 2 := by cases state <;> decide
    rw [states_eq, states_eq, List.length_take_of_le (short _), List.length_take_of_le (short _)]
      at lengths
    exact lengths
  published := by
    rw [states_eq]
    exact List.take_prefix _ _
  latest := by
    rw [states_eq]
    cases (create config address stoppable).reading hs <;> rfl
  waits := by
    intro idle
    have early : ((Server.create config address stoppable).steps (incidents hs)).1.IsEarly :=
      Server.isEarly_steps (.inl rfl) (mt mem_incidents.mp idle)
    rw [reading_eq]
    obtain waiting | discarded := early
    · rw [waiting]
      rfl
    · rw [discarded]
      rfl
  stops := by
    intro undisturbed
    rcases undisturbed_cases undisturbed with ⟨idle, starting, -⟩ | ⟨unasked, listening, -⟩ |
      ⟨told, run, signal, stopped, -⟩
    · rw [starting]
      exact ⟨nofun, fun cause => absurd cause.2.1 idle⟩
    · rw [listening]
      exact ⟨nofun, fun cause => absurd ⟨cause.1, cause.2.2⟩ unasked⟩
    · exact ⟨fun _ => ⟨told, run, signal⟩, fun _ => stopped⟩
  closed := by
    intro stopped later client
    obtain ⟨how, ended⟩ : ∃ how,
        ((create config address stoppable).steps hs).1.server.stage = .ended how := by
      rw [reading_eq] at stopped
      rw [(server_steps _ hs).1]
      exact Server.exists_ended stopped
    rw [steps_append]
    exact closed_of_ended ended later client
  told := by
    intro undisturbed
    rcases undisturbed_cases undisturbed with ⟨-, -, none_yet⟩ | ⟨-, -, first⟩ | ⟨-, -, -, -, all⟩
    · rw [none_yet]
      exact List.nil_prefix
    · rw [first]
      exact List.take_prefix _ _
    · simp only [all, List.prefix_rfl]
  once := nodup_lifeLines config address
  complete := by
    intro undisturbed
    rcases undisturbed_cases undisturbed with ⟨-, starting, none_yet⟩ | ⟨-, listening, first⟩ |
      ⟨-, -, -, stopped, all⟩
    · rw [starting, none_yet]
      exact ⟨nofun, nofun⟩
    · rw [listening, first]
      exact ⟨nofun, nofun⟩
    · exact ⟨fun _ => all, fun _ => stopped⟩

/-- A signal that was given too early is not lost. -/
example (config : ServerConfig) (address : SocketAddress) :
    (create config address true).news [.incident .signal, .incident .run] =
      lifeLines config address := rfl

end Service

end GuideRig
