/-
# GuideRig.Server.Lifecycle -- from binding a socket to closing it

A server is bound, run once, and stopped. What happens to it from outside is an incident; `step` is
its reaction: a new state of the server, and effects in their order. The published state goes from
`starting` over `listening` to `stopped`, and it says `stopped` only after the socket has been
closed. A run ends in one of three ways; `closing` holds what each of them does, so that closing the
socket, publishing and the last line of the log belong to all three.
-/

import GuideRig.Log
import GuideRig.Server.Config

namespace GuideRig

/-- What a server publishes about itself. -/
inductive ServerState where
  /-- The socket is bound, and nothing is accepted yet. -/
  | starting
  /-- Connections are accepted. -/
  | listening
  /-- The socket is closed. -/
  | stopped
  deriving DecidableEq, Repr

/-- How a run ended. -/
inductive Ending where
  /-- The shutdown signal came. -/
  | shutdown
  /-- No more connections could be accepted. -/
  | failure (cause : IoError)
  /-- The run was given up from outside. -/
  | abandoned
  deriving DecidableEq, Repr

/-- How far a server has come. -/
inductive Stage where
  | waiting
  | running
  | ended (how : Ending)
  /-- It was given up before it was run. -/
  | discarded
  deriving DecidableEq, Repr

/-- A client's end of a connection. -/
abbrev Client := SocketAddress

/-- What a server does that can be seen. -/
inductive Effect where
  | publish (state : ServerState)
  | closeSocket
  | log (line : LogLine)
  /-- A connection is accepted, and from then on served on its own. -/
  | serve (client : Client)
  deriving DecidableEq, Repr

/-- What happens to a server. -/
inductive Incident where
  /-- Its run is begun. -/
  | run
  /-- The shutdown signal is given. -/
  | signal
  /-- A client connects. -/
  | connect (client : Client)
  /-- The socket fails. -/
  | failure (cause : IoError)
  /-- The server, or its run, is given up. -/
  | abandon
  deriving DecidableEq, Repr

/-- A server. -/
structure Server where
  config : ServerConfig
  /-- The address of the socket, with the port that it was given. -/
  address : SocketAddress
  /-- Whether it was told of a signal to stop at. -/
  stoppable : Bool
  /-- Whether the signal has been given. -/
  signalled : Bool
  stage : Stage
  state : ServerState
  deriving DecidableEq, Repr

namespace Server

/-- A server that has just been bound. -/
def create (config : ServerConfig) (address : SocketAddress) (stoppable : Bool) : Server :=
  ⟨config, address, stoppable, false, .waiting, .starting⟩

/-! ## The log -/

/-- A line of the server's log. -/
def line (s : Server) (level : Level) (text : String) : LogLine :=
  ⟨level, .server, s.config.logName s.address ++ " => " ++ text⟩

/-- The line at the begin of a run. -/
def runningLine (s : Server) : LogLine :=
  s.line .info ("Server running at http://" ++ s.address.text)

/-- The line about the shutdown signal. -/
def signalLine (s : Server) : LogLine := s.line .info "Received shutdown signal"

/-- The line about a socket that failed. -/
def failureLine (s : Server) (cause : IoError) : LogLine :=
  s.line .error ("Error while accepting connections: " ++ cause.message)

/-- The line at the end of a run. -/
def stoppedLine (s : Server) : LogLine := s.line .info "Server stopped"

/-! ## Reactions -/

/-- What the log says of the way in which a run ends. -/
def endingLines (s : Server) : Ending → List LogLine
  | .shutdown => [s.signalLine]
  | .failure cause => [s.failureLine cause]
  | .abandoned => []

/-- The effects at the end of a run. -/
def closing (s : Server) (how : Ending) : List Effect :=
  .closeSocket :: (s.endingLines how).map .log ++ [.publish .stopped, .log s.stoppedLine]

/-- The server after its run. -/
def stopped (s : Server) (how : Ending) : Server :=
  { s with stage := .ended how, state := .stopped }

/-- The effects at the begin of a run. -/
def opening (s : Server) : List Effect := [.publish .listening, .log s.runningLine]

/-- The server at the begin of its run. -/
def running (s : Server) : Server := { s with stage := .running, state := .listening }

/-- Whether a run ends as soon as it can. -/
def isDue (s : Server) : Bool := s.stoppable && s.signalled

/-- The reaction to an incident. -/
def step (s : Server) (i : Incident) : Server × List Effect :=
  match s.stage, i with
  | .waiting, .run =>
    if s.isDue then (s.stopped .shutdown, s.opening ++ s.closing .shutdown)
    else (s.running, s.opening)
  | .waiting, .signal => ({ s with signalled := true }, [])
  | .waiting, .abandon => ({ s with stage := .discarded }, [.closeSocket])
  | .waiting, _ => (s, [])
  | .running, .signal =>
    if s.stoppable then ({ s with signalled := true }.stopped .shutdown, s.closing .shutdown)
    else ({ s with signalled := true }, [])
  | .running, .connect client => (s, [.serve client])
  | .running, .failure cause => (s.stopped (.failure cause), s.closing (.failure cause))
  | .running, .abandon => (s.stopped .abandoned, s.closing .abandoned)
  | .running, .run => (s, [])
  | .ended _, _ => (s, [])
  | .discarded, _ => (s, [])

/-- The reactions to incidents, one after the other. -/
def steps (s : Server) : List Incident → Server × List Effect
  | [] => (s, [])
  | i :: rest =>
    let (s, effects) := s.step i
    let (s, more) := steps s rest
    (s, effects ++ more)

/-- What a run gives back when it has ended by itself. -/
def result? (s : Server) : Option (Except IoError Unit) :=
  match s.stage with
  | .ended .shutdown => some (.ok ())
  | .ended (.failure cause) => some (.error cause)
  | _ => none

/-- The lines of the log among effects. -/
def logOf (effects : List Effect) : List LogLine :=
  effects.filterMap fun
    | .log line => some line
    | _ => none

end Server

/-! ## Binding -/

/-- What binding each address gives: the address that the socket then has. -/
abbrev Bindings := SocketAddress → Except IoError SocketAddress

/-- Binds a socket and makes a server of it. -/
def Server.init (config : ServerConfig) (bind : Bindings) (stoppable : Bool) :
    Except IoError Server :=
  match bind config.listen with
  | .ok address => .ok (.create config address stoppable)
  | .error cause => .error cause

end GuideRig
