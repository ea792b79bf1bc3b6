/-
# GuideRig.Proofs.Server.Exit -- every end of a run is clean

A run that has begun goes on until a signal that it was told of, a failure of its socket, or its being
given up, whichever comes first; a signal that came before it ends it at once (`endingOf?`). Nothing else
ends it, and nothing comes after its end (`stage_of_begun`). What the server has done by then is the account
of that stage, with who was accepted in between, and all that an end has to be is read off the account: the
socket is closed before the server says that it is stopped, that is said once, and the last line is last
(`clean_of_account`). `exits_cleanly` says so of every run, among requests and connections of any number.
-/

import GuideRig.Proofs.Server.Course

namespace GuideRig

/-! ## What ends a run -/

/-- How a run ends between the incidents before its begin and those after it, if it does. -/
def endingOf? (stoppable : Bool) (before after : List Incident) : Option Ending :=
  if stoppable = true ∧ .signal ∈ before then some .shutdown
  else after.findSome? (Incident.ending? stoppable)

namespace Server

/-! ## The stage that a begun run comes to -/

theorem steps_append (s : Server) (is later : List Incident) :
    s.steps (is ++ later) =
      (((s.steps is).1.steps later).1, (s.steps is).2 ++ ((s.steps is).1.steps later).2) := by
  induction is generalizing s with
  | nil => rfl
  | cons i is ih => simp only [List.cons_append, steps_cons, ih, List.append_assoc]

/-- Until it is run or given up, a server that waits only takes notice of the signal. -/
theorem steps_of_waiting {s : Server} (waiting : s.stage = .waiting) {is : List Incident}
    (unrun : .run ∉ is) (kept : .abandon ∉ is) :
    (s.steps is).1 = { s with signalled := s.signalled || decide (.signal ∈ is) } := by
  induction is generalizing s with
  | nil => simp [steps]
  | cons i is ih =>
    obtain ⟨other, unrun_later⟩ := List.ne_and_not_mem_of_not_mem_cons unrun
    obtain ⟨other', kept_later⟩ := List.ne_and_not_mem_of_not_mem_cons kept
    rw [steps_cons]
    cases i with
    | run => exact absurd rfl other
    | abandon => exact absurd rfl other'
    | connect client =>
      have still : s.step (.connect client) = (s, []) := by simp only [step, waiting]
      simpa [still] using ih waiting unrun_later kept_later
    | failure cause =>
      have still : s.step (.failure cause) = (s, []) := by simp only [step, waiting]
      simpa [still] using ih waiting unrun_later kept_later
    | signal =>
      have notes : s.step .signal = ({ s with signalled := true }, []) := by simp only [step, waiting]
      have next := ih (s := { s with signalled := true }) waiting unrun_later kept_later
      simpa [notes] using next

theorem step_run_of_waiting {s : Server} (waiting : s.stage = .waiting) :
    s.step .run = if s.isDue then (s.stopped .shutdown, s.opening ++ s.closing .shutdown)
      else (s.running, s.opening) := by
  simp only [step, waiting]

/-- The stage that a run comes to is the way in which it ends, or the run goes on. -/
theorem stage_of_begun {s : Server} (waiting : s.stage = .waiting) (fresh : s.signalled = false)
    {before : List Incident} (unrun : .run ∉ before) (kept : .abandon ∉ before) (after : List Incident) :
    (s.steps (before ++ .run :: after)).1.stage =
      ((endingOf? s.stoppable before after).map Stage.ended).getD .running := by
  rw [steps_append, steps_cons, steps_of_waiting waiting unrun kept, endingOf?]
  generalize noted : ({ s with signalled := s.signalled || decide (.signal ∈ before) } : Server) = t
  have still : t.stage = .waiting := by rw [← noted, waiting]
  have due_iff : t.isDue = true ↔ s.stoppable = true ∧ .signal ∈ before := by
    rw [← noted]
    simp [isDue, fresh]
  have told : t.stoppable = s.stoppable := by rw [← noted]
  rw [step_run_of_waiting still]
  by_cases due : t.isDue = true
  · rw [if_pos due, if_pos (due_iff.mp due), steps_of_ended (stage_stopped t .shutdown)]
    rfl
  · rw [if_neg due, if_neg (mt due_iff.mpr due), ← told]
    exact stage_steps_of_running rfl after

/-! ## What has been done by the end -/

/-- None of the lines of a run is like another. -/
theorem lines_ne (s : Server) (cause : IoError) :
    (s.stoppedLine ≠ s.runningLine ∧ s.stoppedLine ≠ s.signalLine ∧ s.stoppedLine ≠ s.failureLine cause) ∧
      s.signalLine ≠ s.runningLine ∧ s.signalLine ≠ s.failureLine cause := by
  have distinct : [s.runningLine, s.signalLine, s.stoppedLine].Nodup :=
    Service.nodup_lifeLines s.config s.address
  simp only [List.nodup_cons, List.mem_cons, List.not_mem_nil, or_false, not_or] at distinct
  obtain ⟨⟨signal_ne, stopped_ne⟩, stopped_ne', -⟩ := distinct
  -- the line about a failure is at another level than the others
  exact ⟨⟨Ne.symm stopped_ne, Ne.symm stopped_ne', fun same => nomatch congrArg LogLine.level same⟩,
    Ne.symm signal_ne, fun same => nomatch congrArg LogLine.level same⟩

theorem mem_log_iff {effects : List Effect} {line : LogLine} :
    .log line ∈ effects ↔ line ∈ logOf effects := by
  rw [logOf, List.mem_filterMap]
  constructor
  · intro told
    exact ⟨_, told, rfl⟩
  · rintro ⟨e, member, found⟩
    cases e with
    | log other =>
      obtain rfl := Option.some.inj found
      exact member
    | publish state => cases found
    | closeSocket => cases found
    | serve client => cases found

theorem mem_iff_of_isOwn {effects own : List Effect} (same : effects.filter Effect.isOwn = own) {e : Effect}
    (isOwn : e.isOwn = true) : e ∈ effects ↔ e ∈ own := by
  rw [← same, List.mem_filter, and_iff_left isOwn]

/-- An effect of the server's own accord stands among all effects as it does in the account. -/
theorem exists_split_of_filter {effects front back : List Effect} {e : Effect}
    (own : effects.filter Effect.isOwn = front ++ e :: back) :
    ∃ before after, effects = before ++ e :: after ∧ before.filter Effect.isOwn = front ∧
      after.filter Effect.isOwn = back := by
  obtain ⟨before, rest, rfl, fronts, backs⟩ := List.filter_eq_append_iff.mp own
  obtain ⟨others, after, rfl, foreign, -, backs⟩ := List.filter_eq_cons_iff.mp backs
  refine ⟨before ++ others, after, (List.append_assoc ..).symm, ?_, backs⟩
  rw [List.filter_append, fronts, List.filter_eq_nil_iff.mpr foreign, List.append_nil]

/-- The end of a run: what the server has done by then, and what the run gives back. -/
structure CleanExit (s : Server) (how : Ending) (result : Option (Except IoError Unit))
    (effects : List Effect) : Prop where
  /-- That the server is stopped is published once, and the socket has been closed before. -/
  published : ∃ before after, effects = before ++ .publish .stopped :: after ∧
    .closeSocket ∈ before ∧ .publish .stopped ∉ before ∧ .publish .stopped ∉ after
  /-- The line about the end is written once, and no line after it. If the socket failed, one error has
  been told before, and otherwise none. -/
  told : ∃ before after, effects = before ++ .log s.stoppedLine :: after ∧
    .log s.stoppedLine ∉ before ∧ logOf after = [] ∧
    (logOf before).filter (·.level = .error) = match how with
      | .failure cause => [s.failureLine cause]
      | _ => []
  /-- The run succeeds if it was ended by the signal, and only then. -/
  succeeds : result = some (.ok ()) ↔ how = .shutdown
  /-- It fails with the cause with which the socket failed, and only then. -/
  fails : ∀ cause, result = some (.error cause) ↔ how = .failure cause
  /-- The signal is told of only if it ended the run. -/
  signalled : .log s.signalLine ∈ effects ↔ how = .shutdown

section Account

variable {s : Server} {how : Ending} {effects : List Effect}

/-- What is said at the begin and the end of a run is said of the configuration and the address. -/
theorem opening_closing_congr {t : Server} (place : t.config = s.config ∧ t.address = s.address) :
    t.opening = s.opening ∧ ∀ how, t.closing how = s.closing how := by
  obtain ⟨config, address⟩ := place
  have lines (level : Level) (text : String) : t.line level text = s.line level text := by
    rw [line, line, config, address]
  constructor
  · rw [opening, opening, runningLine, runningLine, lines, address]
  · intro how
    rw [closing, closing, stoppedLine, stoppedLine, lines]
    cases how with
    | shutdown => rw [endingLines, endingLines, signalLine, signalLine, lines]
    | failure cause => rw [endingLines, endingLines, failureLine, failureLine, lines]
    | abandoned => rfl

/-- What a run does of its own accord is what there is to do at its begin, and then at its end if it ends. -/
theorem own_of_begun (waiting : s.stage = .waiting) (fresh : s.signalled = false) {before : List Incident}
    (unrun : .run ∉ before) (kept : .abandon ∉ before) (after : List Incident) :
    (s.steps (before ++ .run :: after)).2.filter Effect.isOwn =
      s.opening ++ ((endingOf? s.stoppable before after).map s.closing).getD [] := by
  have stage := stage_of_begun waiting fresh unrun kept after
  have account := account_steps s (before ++ .run :: after)
  obtain ⟨opening, closing⟩ := opening_closing_congr (place_steps s (before ++ .run :: after))
  have start : s.account = [] := by rw [Server.account, waiting]
  rw [start, List.nil_append] at account
  rw [← account, Server.account, stage]
  cases endingOf? s.stoppable before after with
  | none => simpa using opening
  | some how => simp [opening, closing]

/-- The socket is closed before the one time that the end is published. -/
theorem published_of_account (own : effects.filter Effect.isOwn = s.opening ++ s.closing how) :
    ∃ before after, effects = before ++ .publish .stopped :: after ∧
      .closeSocket ∈ before ∧ .publish .stopped ∉ before ∧ .publish .stopped ∉ after := by
  have place : effects.filter Effect.isOwn =
      (s.opening ++ .closeSocket :: (s.endingLines how).map .log) ++
        .publish .stopped :: [.log s.stoppedLine] := by
    rw [own, closing]
    simp only [List.cons_append, List.append_assoc]
  obtain ⟨before, after, split, front, back⟩ := exists_split_of_filter place
  refine ⟨before, after, split, ?_, ?_, ?_⟩
  · rw [mem_iff_of_isOwn front rfl]
    exact List.mem_append_right _ List.mem_cons_self
  · rw [mem_iff_of_isOwn front rfl]
    simp [opening]
  · rw [mem_iff_of_isOwn back rfl]
    simp

/-- The log of a run by its last line: the line about its begin, and what there is to say of its end. -/
theorem told_of_account (own : effects.filter Effect.isOwn = s.opening ++ s.closing how) :
    ∃ before after, effects = before ++ .log s.stoppedLine :: after ∧
      logOf before = s.runningLine :: s.endingLines how ∧ logOf after = [] := by
  have place : effects.filter Effect.isOwn =
      (s.opening ++ .closeSocket :: (s.endingLines how).map .log ++ [.publish .stopped]) ++
        .log s.stoppedLine :: [] := by
    rw [own, closing]
    simp only [List.cons_append, List.append_assoc, List.nil_append]
  obtain ⟨before, after, split, front, back⟩ := exists_split_of_filter place
  refine ⟨before, after, split, ?_, ?_⟩
  · rw [← logOf_filter, front]
    cases how with
    | shutdown => rfl
    | failure cause => rfl
    | abandoned => rfl
  · rw [← logOf_filter, back]
    rfl

/-- A server whose account is that of an ended run has ended it cleanly. -/
theorem clean_of_account (own : effects.filter Effect.isOwn = s.opening ++ s.closing how) {t : Server}
    (ended : t.stage = .ended how) : CleanExit s how t.result? effects := by
  obtain ⟨before, after, split, lines, last⟩ := told_of_account own
  have log : logOf effects = s.runningLine :: s.endingLines how ++ [s.stoppedLine] := by
    rw [split, logOf_append, lines]
    show _ ++ s.stoppedLine :: logOf after = _
    rw [last]
  constructor
  · exact published_of_account own
  · refine ⟨before, after, split, ?_, last, ?_⟩
    · rw [mem_log_iff, lines]
      cases how with
      | shutdown => simp [endingLines, s.lines_ne .notFound]
      | failure cause => simp [endingLines, s.lines_ne cause]
      | abandoned => simp [endingLines, s.lines_ne .notFound]
    · rw [lines]
      cases how with
      | shutdown => rfl
      | failure cause => rfl
      | abandoned => rfl
  · rw [result?, ended]
    cases how <;> simp
  · intro cause
    rw [result?, ended]
    cases how <;> simp
  · rw [mem_log_iff, log]
    cases how with
    | shutdown => simp [endingLines]
    | failure cause => simp [endingLines, s.lines_ne cause, (s.lines_ne cause).1.2.1.symm]
    | abandoned => simp [endingLines, s.lines_ne .notFound, (s.lines_ne .notFound).1.2.1.symm]

end Account

end Server

namespace Service

/-- Every end of a run is clean. A server that is run, and had not been given up before, ends its run by the
signal, by a failure of its socket or by being given up, whichever comes first, whatever connections and
requests there are in between: then its exit is clean. As long as none of these comes it has said nothing of
an end and keeps its socket. -/
theorem exits_cleanly (config : ServerConfig) (address : SocketAddress) (stoppable : Bool)
    {hs : List Happening} {before after : List Incident} (begun : incidents hs = before ++ .run :: after)
    (unrun : .run ∉ before) (kept : .abandon ∉ before) :
    let s := Server.create config address stoppable
    let result := ((create config address stoppable).steps hs).1.server.result?
    let effects := ((create config address stoppable).steps hs).2.filterMap Reaction.effect?
    (∀ how, endingOf? stoppable before after = some how → Server.CleanExit s how result effects) ∧
    (endingOf? stoppable before after = none → result = none ∧ .publish .stopped ∉ effects ∧
      .closeSocket ∉ effects ∧ .log s.stoppedLine ∉ effects) := by
  intro s result effects
  obtain ⟨served, happened⟩ : result = (s.steps (incidents hs)).1.result? ∧
      effects = (s.steps (incidents hs)).2 := by
    obtain ⟨server, effects_eq⟩ := server_steps (create config address stoppable) hs
    exact ⟨congrArg Server.result? server, effects_eq⟩
  have stage : (s.steps (incidents hs)).1.stage =
      ((endingOf? stoppable before after).map Stage.ended).getD .running := by
    rw [begun]
    exact Server.stage_of_begun rfl rfl unrun kept after
  have own : effects.filter Effect.isOwn =
      s.opening ++ ((endingOf? stoppable before after).map s.closing).getD [] := by
    rw [happened, begun]
    exact Server.own_of_begun rfl rfl unrun kept after
  rw [served]
  constructor
  · intro how ends
    rw [ends] at stage own
    exact Server.clean_of_account own stage
  · intro goes
    rw [goes] at stage
    rw [goes, Option.map_none, Option.getD_none, List.append_nil] at own
    refine ⟨?_, ?_, ?_, ?_⟩
    · rw [Server.result?, stage]
      rfl
    · rw [Server.mem_iff_of_isOwn own rfl]
      simp [Server.opening]
    · rw [Server.mem_iff_of_isOwn own rfl]
      simp [Server.opening]
    · rw [Server.mem_iff_of_isOwn own rfl]
      simp [Server.opening, s.lines_ne .notFound]

/-- A server to which somebody connects too early and then in time, whose page is asked for, and whose
socket fails; the signal comes too late. -/
theorem exits_cleanly_failure :
    let config : ServerConfig := ⟨.v4 ⟨127, 0, 0, 1⟩ 0, .document "page.html", none⟩
    let address : SocketAddress := .v4 ⟨127, 0, 0, 1⟩ 8082
    let client : Client := .v4 ⟨127, 0, 0, 1⟩ 50000
    let files : Files := fun _ => .error .notFound
    let cause : IoError := .other 24 "Too many open files"
    let hs : List Happening := [.incident (.connect client), .incident .run, .incident (.connect client),
      .request client files ⟨.get, Ascii.bytes "/", [], []⟩, .incident (.failure cause), .incident .signal]
    let before : List Incident := [.connect client]
    let after : List Incident := [.connect client, .failure cause, .signal]
    incidents hs = before ++ .run :: after ∧ .run ∉ before ∧ .abandon ∉ before ∧
      endingOf? true before after = some (.failure cause) ∧
      Server.CleanExit (Server.create config address true) (.failure cause)
        ((create config address true).steps hs).1.server.result?
        (((create config address true).steps hs).2.filterMap Reaction.effect?) := by
  intro config address client files cause hs before after
  have begun : incidents hs = before ++ .run :: after := rfl
  have unrun : .run ∉ before := by decide
  have kept : .abandon ∉ before := by decide
  have ends : endingOf? true before after = some (.failure cause) := by decide
  exact ⟨begun, unrun, kept, ends, (exits_cleanly config address true begun unrun kept).1 _ ends⟩

end Service

end GuideRig
