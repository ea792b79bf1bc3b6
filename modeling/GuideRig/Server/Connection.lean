/-
# GuideRig.Server.Connection -- answering the requests of a connection

The requests of a connection are answered in order. Only one method is known; a request of any other
is told so, and no file is looked at for it. A request whose file cannot be read gets no answer: the
connection is closed, and nothing that comes after is heard. What a server has to show is the same
for all of its connections, and the files are looked at anew for each request, so an answer depends
on nothing but the request and the files at that moment.
-/

import GuideRig.Error
import GuideRig.Guide.Page
import GuideRig.Log
import GuideRig.Server.Lifecycle

namespace GuideRig

/-- The query of a request's target: what follows the first question mark. -/
def Request.query? (r : Request) : Option Bytes :=
  match (r.target.takeWhile (· != Ascii.byte '#')).dropWhile (· != Ascii.byte '?') with
  | [] => none
  | _ :: q => some q

namespace Content

/-- The field that names the form of every page. -/
def htmlField : HeaderField := ⟨"Content-Type", Ascii.bytes "text/html"⟩

/-- The answer to a request of a method that is not known. -/
def notImplemented : Response := ⟨501, [], []⟩

/-- The answer to a request, or the file that stood in its way. -/
def respond (content : Content) (files : Files) (r : Request) : Except ReadFault Response :=
  if r.method ≠ .get then .ok notImplemented
  else match content.render files r.query? with
    | .ok body => .ok ⟨200, [htmlField], body⟩
    | .error f => .error f

/-- Which part of the program writes about the files. -/
def source : Content → LogSource
  | pages _ => .pages
  | document _ => .document

/-- What the log says while a request is answered. -/
def notes (content : Content) (r : Request) : List LogLine :=
  if r.method ≠ .get then []
  else ((content.path? r.query?).map fun path =>
    (⟨.debug, content.source, content.note path⟩ : LogLine)).toList

end Content

/-- How a connection stands. -/
inductive Connection where
  /-- It has not been accepted. -/
  | absent
  | accepted
  /-- It has been closed. -/
  | closed
  deriving DecidableEq, Repr

namespace Connection

/-- The line about a connection that could not be served. -/
def failureLine (client : Client) (cause : String) : LogLine :=
  ⟨.warn, .server, "Failed to serve connection from " ++ client.text ++ ": " ++ cause⟩

/-- The cause named for a request whose file cannot be read. -/
def unservedCause : String := "error from user's Service"

/-- Handles a request on a connection: how the connection then stands, the answer, and the log. -/
def handle (content : Content) (client : Client) (files : Files) (c : Connection) (r : Request) :
    Connection × Option Response × List LogLine :=
  match c with
  | .accepted =>
    match content.respond files r with
    | .ok response => (.accepted, some response, content.notes r)
    | .error _ => (.closed, none, content.notes r ++ [failureLine client unservedCause])
  | c => (c, none, [])

end Connection

/-! ## A server and its connections -/

/-- A server and how the connections of all clients stand. -/
structure Service where
  server : Server
  connections : Client → Connection

/-- What happens to a server or on one of its connections. Requests come with the files as they are
when the request is handled. -/
inductive Happening where
  | incident (i : Incident)
  | request (client : Client) (files : Files) (r : Request)

/-- What becomes of it. -/
inductive Reaction where
  | effect (e : Effect)
  /-- The answer to a request of a client, if it gets one. -/
  | answer (client : Client) (response : Option Response)
  | log (line : LogLine)
  deriving DecidableEq

namespace Service

/-- A server that has just been bound. -/
def ofServer (s : Server) : Service := ⟨s, fun _ => .absent⟩

/-- The connections after some effects. -/
def accepted (connections : Client → Connection) : List Effect → Client → Connection
  | [] => connections
  | .serve client :: rest => accepted (fun c => if c = client then .accepted else connections c) rest
  | _ :: rest => accepted connections rest

/-- The reaction to one happening. -/
def step (s : Service) (h : Happening) : Service × List Reaction :=
  match h with
  | .incident i =>
    let (server, effects) := s.server.step i
    (⟨server, accepted s.connections effects⟩, effects.map .effect)
  | .request client files r =>
    let (c, response, lines) :=
      Connection.handle s.server.config.content client files (s.connections client) r
    (⟨s.server, fun other => if other = client then c else s.connections other⟩,
      lines.map .log ++ [.answer client response])

/-- The reactions to happenings, one after the other. -/
def steps (s : Service) : List Happening → Service × List Reaction
  | [] => (s, [])
  | h :: rest =>
    let (s, reactions) := s.step h
    let (s, more) := steps s rest
    (s, reactions ++ more)

end Service

end GuideRig
