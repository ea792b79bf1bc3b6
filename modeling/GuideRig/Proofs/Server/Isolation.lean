/-
# GuideRig.Proofs.Server.Isolation -- connections do not see each other

A run of a server mixes the requests of all connections with incidents and with changes of the files. Two
steps are all there is to see: a request changes how its own connection stands and no other
(`connections_request`), and an incident changes how a connection stands only by accepting it
(`connections_incident`). By induction over the run each connection goes through its own requests as if it
were alone (`run_trace`), and the server through its incidents as if it had no connections
(`server_steps`). What an accepted connection answers is said without the server, by `Connection.serve`.
-/

import GuideRig.Proofs.Server.Confinement
import GuideRig.Proofs.Server.Lifecycle

namespace GuideRig

/-! ## What happens, from one side -/

/-- The request that a happening is on the connection of a client, with the files as they are then. -/
def Happening.requestOf? (client : Client) : Happening → Option (Files × Request)
  | .request other files r => if other = client then some (files, r) else none
  | .incident _ => none

/-- The incident that a happening is. -/
def Happening.incident? : Happening → Option Incident
  | .incident i => some i
  | .request _ _ _ => none

/-- The effect that a reaction is. -/
def Reaction.effect? : Reaction → Option Effect
  | .effect e => some e
  | _ => none

/-- A reaction that writes a warning. -/
def Reaction.isWarning : Reaction → Bool
  | .log line => line.level == .warn
  | .effect (.log line) => line.level == .warn
  | _ => false

/-- How many warnings there are among some reactions. -/
def warnings (reactions : List Reaction) : Nat := reactions.countP Reaction.isWarning

/-! ## A connection by itself -/

namespace Connection

variable {content : Content} {client : Client}

/-- The reactions to a request that nobody hears. -/
def silence (client : Client) : List Reaction := [.answer client none]

/-- The reactions to the requests of an accepted connection, one after the other, with the files as they are
at each of them. A method that is not known is refused, and no file is looked at. A page goes out as HTML.
The first request whose file cannot be read is told of in a warning and ends the connection: neither it
nor a later one is answered. -/
def serve (content : Content) (client : Client) : List (Files × Request) → List (List Reaction)
  | [] => []
  | (files, r) :: rest =>
    if r.method ≠ .get then [.answer client (some ⟨501, [], []⟩)] :: serve content client rest
    else match content.render files r.query? with
      | .ok body =>
        ((content.notes r).map .log ++
          [.answer client (some ⟨200, [⟨"Content-Type", Ascii.bytes "text/html"⟩], body⟩)]) ::
            serve content client rest
      | .error _ =>
        ((content.notes r).map .log ++
          [.log (failureLine client "error from user's Service"), .answer client none]) ::
            rest.map fun _ => silence client

/-- What comes of a request on a connection: how this then stands, and the reactions. -/
def react (content : Content) (client : Client) (c : Connection) (asked : Files × Request) :
    Connection × List Reaction :=
  ((handle content client asked.1 c asked.2).1,
    (handle content client asked.1 c asked.2).2.2.map .log ++
      [.answer client (handle content client asked.1 c asked.2).2.1])

/-- What comes of requests, one after the other. -/
def run (content : Content) (client : Client) : Connection → List (Files × Request) →
    Connection × List (List Reaction)
  | c, [] => (c, [])
  | c, first :: rest =>
    ((run content client (react content client c first).1 rest).1,
      (react content client c first).2 :: (run content client (react content client c first).1 rest).2)

/-- Whether a request asks for a file that cannot be read. -/
def isUnreadable (content : Content) (asked : Files × Request) : Bool :=
  asked.2.method = .get && !(content.render asked.1 asked.2.query?).isOk

/-- What cannot be read is the file that the query of a request leads to. -/
theorem isUnreadable_iff {asked : Files × Request} : isUnreadable content asked = true ↔
    asked.2.method = .get ∧ ∃ path, content.path? asked.2.query? = some path ∧
      ∃ cause, asked.1 path = .error cause := by
  simp only [isUnreadable, Bool.and_eq_true, Bool.not_eq_true', decide_eq_true_eq,
    Content.render_isOk_eq_false_iff]

/-! ### One request -/

theorem warnings_append (a b : List Reaction) : warnings (a ++ b) = warnings a + warnings b :=
  List.countP_append

/-- What is told about the files is no warning. -/
theorem warnings_notes (content : Content) (r : Request) :
    warnings ((content.notes r).map .log) = 0 := by
  unfold Content.notes
  split
  · rfl
  · cases content.path? r.query? with
    | none => rfl
    | some path => rfl

/-- A request either leaves the connection to the later ones, and warns of nothing, or it ends the
connection with one warning. -/
theorem react_cases (content : Content) (client : Client) (asked : Files × Request) :
    (isUnreadable content asked = false ∧ ∃ reactions,
      react content client .accepted asked = (.accepted, reactions) ∧ warnings reactions = 0 ∧
        ∀ rest, serve content client (asked :: rest) = reactions :: serve content client rest) ∨
    (isUnreadable content asked = true ∧ ∃ reactions,
      react content client .accepted asked = (.closed, reactions) ∧ warnings reactions = 1 ∧
        ∀ rest, serve content client (asked :: rest) =
          reactions :: rest.map fun _ => silence client) := by
  obtain ⟨files, r⟩ := asked
  rcases content.respond_cases files r with ⟨other, refused⟩ | ⟨get, body, shown, answered, -⟩ |
    ⟨get, path, -, cause, -, failed, unanswered⟩
  · have notes : content.notes r = [] := if_pos other
    refine .inl ⟨?_, [.answer client (some ⟨501, [], []⟩)], ?_, rfl, ?_⟩
    · simp only [isUnreadable, other, decide_false, Bool.false_and]
    · simp only [react, handle, refused, notes]
      rfl
    · intro rest
      rw [serve, if_pos other]
  · refine .inl ⟨?_, (content.notes r).map .log ++
      [.answer client (some ⟨200, [⟨"Content-Type", Ascii.bytes "text/html"⟩], body⟩)], ?_, ?_, ?_⟩
    · simp only [isUnreadable, shown, Except.isOk, Except.toBool, Bool.not_true, Bool.and_false]
    · simp only [react, handle, answered]
      rfl
    · rw [warnings_append, warnings_notes]
      rfl
    · intro rest
      rw [serve, if_neg (not_not.mpr get), shown]
  · refine .inr ⟨?_, (content.notes r).map .log ++
      [.log (failureLine client "error from user's Service"), .answer client none], ?_, ?_, ?_⟩
    · simp only [isUnreadable, get, failed, Except.isOk, Except.toBool, Bool.not_false, decide_true,
        Bool.and_self]
    · simp only [react, handle, unanswered, List.map_append, List.append_assoc]
      rfl
    · rw [warnings_append, warnings_notes]
      rfl
    · intro rest
      rw [serve, if_neg (not_not.mpr get), failed]

/-! ### All requests -/

/-- Nothing is heard on a connection that has been closed. -/
theorem run_closed (asked : List (Files × Request)) :
    run content client .closed asked = (.closed, asked.map fun _ => silence client) := by
  induction asked with
  | nil => rfl
  | cons first rest ih =>
    have closed : react content client .closed first = (.closed, silence client) := rfl
    simp only [run, closed, ih, List.map_cons]

/-- An accepted connection is served, and it is open until a file cannot be read. -/
theorem run_accepted (asked : List (Files × Request)) :
    run content client .accepted asked =
      (if asked.any (isUnreadable content) then .closed else .accepted,
        serve content client asked) := by
  induction asked with
  | nil => rfl
  | cons first rest ih =>
    rcases react_cases content client first with ⟨readable, reactions, stays, -, served⟩ |
      ⟨unreadable, reactions, ends, -, served⟩
    · simp only [run, stays, ih, served, List.any_cons, readable, Bool.false_or]
    · simp only [run, ends, run_closed, served, List.any_cons, unreadable, Bool.true_or, if_true]

/-- As long as all files can be read, requests are answered one by one. -/
theorem serve_append {before : List (Files × Request)}
    (readable : ∀ asked ∈ before, isUnreadable content asked = false) (later : List (Files × Request)) :
    serve content client (before ++ later) =
      serve content client before ++ serve content client later := by
  induction before with
  | nil => rfl
  | cons first before ih =>
    obtain ⟨here, readable⟩ := List.forall_mem_cons.mp readable
    rcases react_cases content client first with ⟨-, reactions, -, -, served⟩ | ⟨unreadable, -⟩
    · rw [List.cons_append, served, served, ih readable, List.cons_append]
    · rw [here] at unreadable
      cases unreadable

/-- Every request has its reactions. -/
theorem length_serve (asked : List (Files × Request)) :
    (serve content client asked).length = asked.length := by
  induction asked with
  | nil => rfl
  | cons first rest ih =>
    rcases react_cases content client first with ⟨-, reactions, -, -, served⟩ |
      ⟨-, reactions, -, -, served⟩
    · rw [served, List.length_cons, ih, List.length_cons]
    · rw [served, List.length_cons, List.length_map, List.length_cons]

/-- A document that can be read is the answer to a request, whatever this asks for. -/
theorem serve_document {path : String} {files : Files} {r : Request} {page : Bytes} (get : r.method = .get)
    (there : files path = .ok page) (later : List (Files × Request)) :
    serve (.document path) client ((files, r) :: later) =
      [.log ⟨.debug, .document, "Send file " ++ path⟩,
        .answer client (some ⟨200, [⟨"Content-Type", Ascii.bytes "text/html"⟩], page⟩)] ::
        serve (.document path) client later := by
  have shown : (Content.document path).render files r.query? = .ok page := by
    simp only [Content.render, Content.readFile, there]
  have notes : (Content.document path).notes r =
      [⟨.debug, .document, "Send file " ++ path⟩] := by
    rw [Content.notes, if_neg (not_not.mpr get)]
    rfl
  rw [serve, if_neg (not_not.mpr get), shown, notes]
  rfl

theorem warnings_silence (client : Client) (asked : List (Files × Request)) :
    warnings (asked.map fun _ => silence client).flatten = 0 := by
  induction asked with
  | nil => rfl
  | cons first rest ih =>
    rw [List.map_cons, List.flatten_cons, warnings_append, ih]
    rfl

/-- A connection warns once if it is asked for a file that cannot be read, and else not at all. -/
theorem warnings_serve (asked : List (Files × Request)) :
    warnings (serve content client asked).flatten = if asked.any (isUnreadable content) then 1 else 0 := by
  induction asked with
  | nil => rfl
  | cons first rest ih =>
    rcases react_cases content client first with ⟨readable, reactions, -, quiet, served⟩ |
      ⟨unreadable, reactions, -, once, served⟩
    · rw [served, List.flatten_cons, warnings_append, quiet, ih, List.any_cons, readable,
        Bool.false_or, Nat.zero_add]
    · rw [served, List.flatten_cons, warnings_append, once, warnings_silence, List.any_cons, unreadable,
        Bool.true_or, if_pos rfl]

end Connection

/-! ## A server and its connections -/

namespace Service

variable {s : Service} {client : Client}

/-! ## One step -/

/-- A request changes how its own connection stands, and no other. -/
theorem connections_request_self (files : Files) (r : Request) :
    (s.step (.request client files r)).1.connections client =
      (Connection.react s.server.config.content client (s.connections client) (files, r)).1 :=
  if_pos rfl

theorem connections_request {other : Client} (h : other ≠ client) (files : Files) (r : Request) :
    (s.step (.request other files r)).1.connections client = s.connections client :=
  if_neg (Ne.symm h)

/-- Effects leave the connection of a client as it stands unless they accept the client. -/
theorem accepted_of_not_mem {connections : Client → Connection} {effects : List Effect}
    (h : .serve client ∉ effects) : accepted connections effects client = connections client := by
  induction effects generalizing connections with
  | nil => rfl
  | cons e effects ih =>
    obtain ⟨first, later⟩ := List.ne_and_not_mem_of_not_mem_cons h
    cases e with
    | serve other =>
      have apart : client ≠ other := fun same => first (congrArg Effect.serve same)
      rw [accepted, ih later, if_neg apart]
    | publish state => exact ih later
    | closeSocket => exact ih later
    | log line => exact ih later

theorem accepted_of_mem {connections : Client → Connection} {effects : List Effect}
    (h : .serve client ∈ effects) : accepted connections effects client = .accepted := by
  induction effects generalizing connections with
  | nil => cases h
  | cons e effects ih =>
    by_cases later : .serve client ∈ effects
    · cases e with
      | serve other => exact ih later
      | publish state => exact ih later
      | closeSocket => exact ih later
      | log line => exact ih later
    · obtain rfl : .serve client = e := (List.mem_cons.mp h).resolve_right later
      rw [accepted, accepted_of_not_mem later, if_pos rfl]

/-- An incident leaves the connection of a client as it stands unless it is that the client connects. -/
theorem connections_incident {i : Incident} (h : i ≠ .connect client) :
    (s.step (.incident i)).1.connections client = s.connections client := by
  apply accepted_of_not_mem
  intro served
  exact h ((s.server.reacts_step i).eq_connect served)

/-- Whatever happens, a server keeps its configuration. -/
theorem config_step (s : Service) (h : Happening) :
    (s.step h).1.server.config = s.server.config := by
  cases h with
  | incident i => exact (s.server.reacts_step i).config_eq
  | request client files r => rfl

/-! ## Runs -/

/-- What happens in a run, each with the reactions to it. -/
def trace (s : Service) : List Happening → List (Happening × List Reaction)
  | [] => []
  | h :: rest => (h, (s.step h).2) :: (s.step h).1.trace rest

/-- The reactions to the requests of a client in what happened. -/
def reactionsOn (client : Client) (happened : List (Happening × List Reaction)) :
    List (List Reaction) :=
  happened.filterMap fun (h, reactions) => (h.requestOf? client).map fun _ => reactions

/-- The requests of a client in a run. -/
def requestsOn (client : Client) (hs : List Happening) : List (Files × Request) :=
  hs.filterMap (Happening.requestOf? client)

theorem steps_eq (s : Service) (hs : List Happening) :
    (s.steps hs).2 = (s.trace hs).flatMap Prod.snd := by
  induction hs generalizing s with
  | nil => rfl
  | cons h rest ih =>
    rw [trace, List.flatMap_cons, ← ih]
    rfl

/-- The requests of a client are handled one after the other, with no regard to anything else that happens
between them. -/
theorem run_trace {hs : List Happening} (once : .incident (.connect client) ∉ hs) :
    ((s.steps hs).1.connections client, reactionsOn client (s.trace hs)) =
      Connection.run s.server.config.content client (s.connections client) (requestsOn client hs) := by
  induction hs generalizing s with
  | nil => rfl
  | cons h rest ih =>
    obtain ⟨first, later⟩ := List.ne_and_not_mem_of_not_mem_cons once
    have next := ih (s := (s.step h).1) later
    rw [config_step] at next
    cases h with
    | incident i =>
      have apart : i ≠ .connect client := fun same => first (congrArg Happening.incident same.symm)
      rw [connections_incident apart] at next
      exact next
    | request other files r =>
      by_cases own : other = client
      · subst own
        have mine : Happening.requestOf? other (.request other files r) = some (files, r) := if_pos rfl
        rw [connections_request_self] at next
        simp only [trace, reactionsOn, requestsOn, List.filterMap_cons, mine, Option.map_some] at next ⊢
        rw [Connection.run, ← next]
        rfl
      · have foreign : Happening.requestOf? client (.request other files r) = none := if_neg own
        rw [connections_request own] at next
        simp only [trace, reactionsOn, requestsOn, List.filterMap_cons, foreign, Option.map_none]
          at next ⊢
        exact next

/-- How an accepted connection stands after a run, and what has come of its requests. -/
theorem run_trace_accepted {hs : List Happening} (stands : s.connections client = .accepted)
    (once : .incident (.connect client) ∉ hs) :
    (s.steps hs).1.connections client =
        (if (requestsOn client hs).any (Connection.isUnreadable s.server.config.content) then .closed
          else .accepted) ∧
      reactionsOn client (s.trace hs) =
        Connection.serve s.server.config.content client (requestsOn client hs) := by
  have whole := run_trace (s := s) once
  rw [stands, Connection.run_accepted] at whole
  exact Prod.mk.inj whole

theorem effects_incident (s : Service) (i : Incident) :
    (s.step (.incident i)).2.filterMap Reaction.effect? = (s.server.step i).2 := by
  show ((s.server.step i).2.map Reaction.effect).filterMap Reaction.effect? = _
  rw [List.filterMap_map]
  exact List.filterMap_some

/-- The reactions to a request are no effects of the server. -/
theorem effects_request (s : Service) (client : Client) (files : Files) (r : Request) :
    (s.step (.request client files r)).2.filterMap Reaction.effect? = [] := by
  show ((Connection.handle _ client files _ r).2.2.map Reaction.log ++ [Reaction.answer client _]).filterMap
    Reaction.effect? = []
  rw [List.filterMap_append, List.filterMap_map]
  exact List.append_eq_nil_iff.mpr ⟨List.filterMap_eq_nil_iff.mpr fun _ _ => rfl, rfl⟩

/-- The server goes through its incidents as if nothing were asked. -/
theorem server_steps (s : Service) (hs : List Happening) :
    (s.steps hs).1.server = (s.server.steps (hs.filterMap Happening.incident?)).1 ∧
      (s.steps hs).2.filterMap Reaction.effect? =
        (s.server.steps (hs.filterMap Happening.incident?)).2 := by
  induction hs generalizing s with
  | nil => exact ⟨rfl, rfl⟩
  | cons h rest ih =>
    obtain ⟨server, effects⟩ := ih (s.step h).1
    have reactions : (s.steps (h :: rest)).2 = (s.step h).2 ++ ((s.step h).1.steps rest).2 := rfl
    rw [reactions, List.filterMap_append, effects]
    cases h with
    | incident i =>
      rw [effects_incident]
      exact ⟨server, rfl⟩
    | request client files r =>
      rw [effects_request, List.nil_append]
      exact ⟨server, rfl⟩

/-- What a server does by itself writes no warning. -/
theorem warnings_incident {s : Service} {hs : List Happening} {i : Incident} {reactions : List Reaction}
    (h : (.incident i, reactions) ∈ s.trace hs) : warnings reactions = 0 := by
  induction hs generalizing s with
  | nil => cases h
  | cons first rest ih =>
    rcases List.mem_cons.mp h with same | later
    · obtain ⟨rfl, rfl⟩ := Prod.mk.inj same
      show ((s.server.step i).2.map Reaction.effect).countP Reaction.isWarning = 0
      rw [List.countP_map, List.countP_eq_zero]
      intro e member warns
      cases e with
      | log line => exact (s.server.reacts_step i).level_ne_warn member (beq_iff_eq.mp warns)
      | publish state => cases warns
      | closeSocket => cases warns
      | serve client => cases warns
    · exact ih later

theorem requestsOn_filter (client : Client) (hs : List Happening) :
    requestsOn client (hs.filter fun h => (h.requestOf? client).isSome) = requestsOn client hs := by
  rw [requestsOn, requestsOn, List.filterMap_filter]
  congr 1
  funext h
  cases h.requestOf? client <;> rfl

/-! ## Isolation -/

/-- In a run of a server no connection sees another. -/
structure Isolated (s : Service) (hs : List Happening) : Prop where
  /-- The trace leaves out none of the reactions and keeps their order. -/
  reactions : (s.steps hs).2 = (s.trace hs).flatMap Prod.snd
  /-- The requests on an accepted connection are served by themselves. -/
  served : ∀ client, s.connections client = .accepted → .incident (.connect client) ∉ hs →
    reactionsOn client (s.trace hs) =
      Connection.serve s.server.config.content client (requestsOn client hs)
  /-- It is closed by a request for a file that cannot be read, and by nothing else. -/
  closed : ∀ client, s.connections client = .accepted → .incident (.connect client) ∉ hs →
    (s.steps hs).1.connections client =
      if (requestsOn client hs).any (Connection.isUnreadable s.server.config.content) then .closed
      else .accepted
  /-- There is one warning then, and none otherwise. -/
  warned : ∀ client, s.connections client = .accepted → .incident (.connect client) ∉ hs →
    warnings (reactionsOn client (s.trace hs)).flatten =
      if (requestsOn client hs).any (Connection.isUnreadable s.server.config.content) then 1 else 0
  /-- Nothing changes for a client if all else is left out of the run. -/
  alone : ∀ client, .incident (.connect client) ∉ hs → reactionsOn client (s.trace hs) =
    reactionsOn client (s.trace (hs.filter fun h => (h.requestOf? client).isSome))
  /-- What cannot be read is the file that the query of a request leads to, at that moment. -/
  unreadable : ∀ asked : Files × Request,
    Connection.isUnreadable s.server.config.content asked = true ↔ asked.2.method = .get ∧
      ∃ path, s.server.config.content.path? asked.2.query? = some path ∧
        ∃ cause, asked.1 path = .error cause
  /-- A server of one document answers with it as it is at that moment, whatever is asked and has been asked
  before, as long as it could be read. -/
  document : ∀ path, s.server.config.content = .document path →
    ∀ client, s.connections client = .accepted → .incident (.connect client) ∉ hs →
      ∀ before files r later page, requestsOn client hs = before ++ (files, r) :: later →
        (∀ asked ∈ before, asked.2.method = .get → ∃ page, asked.1 path = .ok page) →
        r.method = .get → files path = .ok page →
        (reactionsOn client (s.trace hs))[before.length]? =
          some [.log ⟨.debug, .document, "Send file " ++ path⟩,
            .answer client (some ⟨200, [⟨"Content-Type", Ascii.bytes "text/html"⟩], page⟩)]
  /-- The server goes through its incidents as if nothing were asked. -/
  server : (s.steps hs).1.server = (s.server.steps (hs.filterMap Happening.incident?)).1
  /-- So do its effects, those by which it accepts included. -/
  effects : (s.steps hs).2.filterMap Reaction.effect? =
    (s.server.steps (hs.filterMap Happening.incident?)).2
  /-- The warnings about files are the only ones. -/
  quiet : ∀ i reactions, (.incident i, reactions) ∈ s.trace hs → warnings reactions = 0
  /-- Whoever is accepted after the run has an accepted connection. -/
  accepts : ∀ i client, .serve client ∈ ((s.steps hs).1.server.step i).2 →
    ((s.steps hs).1.step (.incident i)).1.connections client = .accepted

theorem isolated (s : Service) (hs : List Happening) : s.Isolated hs where
  reactions := steps_eq s hs
  served := by
    intro client stands once
    exact (run_trace_accepted stands once).2
  closed := by
    intro client stands once
    exact (run_trace_accepted stands once).1
  warned := by
    intro client stands once
    rw [(run_trace_accepted stands once).2, Connection.warnings_serve]
  alone := by
    intro client once
    have less : .incident (.connect client) ∉ hs.filter fun h => (h.requestOf? client).isSome := by
      intro member
      exact once (List.mem_filter.mp member).1
    have whole := run_trace (s := s) once
    rw [← requestsOn_filter, ← run_trace less] at whole
    exact (Prod.mk.inj whole).2
  unreadable := fun _ => Connection.isUnreadable_iff
  document := by
    intro path shows client stands once before files r later page requests earlier get there
    have readable : ∀ asked ∈ before,
        Connection.isUnreadable s.server.config.content asked = false := by
      intro asked member
      rw [Bool.eq_false_iff, ne_eq, Connection.isUnreadable_iff, shows]
      rintro ⟨get, _, ⟨⟩, cause, unread⟩
      obtain ⟨page, there⟩ := earlier asked member get
      rw [there] at unread
      cases unread
    have place : before.length = (Connection.serve (.document path) client before).length :=
      (Connection.length_serve before).symm
    rw [(run_trace_accepted stands once).2, requests, Connection.serve_append readable, shows,
      Connection.serve_document get there, place, List.getElem?_append_right (Nat.le_refl _),
      Nat.sub_self, List.getElem?_cons_zero]
  server := (server_steps s hs).1
  effects := (server_steps s hs).2
  quiet := fun _ _ => warnings_incident
  accepts := fun _ _ => accepted_of_mem

end Service

end GuideRig
