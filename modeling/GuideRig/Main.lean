/-
# GuideRig.Main -- the command line

The first argument says which of the three programs is run, and the others are its own. What a program
makes of them is decided elsewhere; here files are read, sockets opened, bytes carried to and fro,
the clock and the source of chance asked, and lines printed.
-/

import GuideRig.Cli.Program
import GuideRig.Http.Wire
import GuideRig.Server.Connection
import Std.Async.DNS
import Std.Async.Signal
import Std.Async.TCP
import Std.Async.Timer
import Std.Time.Zoned

namespace GuideRig.Main

open Std.Async
open GuideRig.Cli (Given Command Outcome Plan Stop)

/-! ## The surroundings -/

/-- The clock. -/
def clock : IO Instant := do
  return (← Std.Time.Timestamp.now).toNanosecondsSinceUnixEpoch.val

/-- The system's number for a cause; it may come as the negative of that, in 32 bits. -/
def codeOf (n : UInt32) : Nat := min n.toNat (0 - n).toNat

/-- The number and the words of a cause. -/
def systemCause (e : IO.Error) : Nat × String :=
  match e with
  | .alreadyExists _ n s | .otherError n s | .resourceBusy n s | .resourceVanished n s
  | .unsupportedOperation n s | .hardwareFault n s | .unsatisfiedConstraints n s
  | .illegalOperation n s | .protocolError n s | .timeExpired n s | .interrupted _ n s
  | .noFileOrDirectory _ n s | .invalidArgument _ n s | .permissionDenied _ n s
  | .resourceExhausted _ n s | .inappropriateType _ n s | .noSuchThing _ n s => (codeOf n, s)
  | .unexpectedEof => (0, "unexpected end of file")
  | .userError s => (0, s)

/-- The cause of a failure. -/
def causeOf (e : IO.Error) : IoError :=
  let (code, words) := systemCause e
  .ofSystem code words

/-- What comes of an action. -/
def attempt {α : Type} (act : Async α) : Async (Except IoError α) := do
  try return .ok (← act)
  catch e => return .error (causeOf e)

/-- The outcome of reading one file. -/
def readFile (path : String) : Async (Except IoError Bytes) := do
  if path.toList.contains '\x00' then return .error .nulInName
  attempt do return (← IO.FS.readBinFile path).toList

/-- The files at some paths; no other path is looked at. -/
def filesAt (paths : List String) : Async Files := do
  let outcomes ← paths.mapM fun p => return (p, ← readFile p)
  return fun p => (outcomes.lookup p).getD (.error .notFound)

/-- Words from the system's source of chance. -/
def chance : IO Words := do
  return .ofSeed (← IO.getRandomBytes 8).toUInt64LE!

/-- Which lines of the log are shown. -/
def filter : IO LogFilter := return .ofSetting (← IO.getEnv "RUST_LOG")

/-- Prints the lines of the log that are shown. -/
def printLog (lines : List LogLine) : Async Unit := do
  let shown := lines.filter (← filter).shows
  let now ← clock
  for l in shown do
    let gap := String.ofList (List.replicate (5 - l.level.text.length) ' ')
    IO.println (now.stamp ++ " " ++ gap ++ Outcome.logText l)
  (← IO.getStdout).flush

/-- Prints what is left to print, and gives the code to end with. -/
def finish (o : Outcome) : Async UInt32 := do
  for line in o.output do IO.println line
  if o.error ≠ "" then IO.eprintln o.error
  return o.exit.toUInt32

/-! ## Addresses -/

/-- An address of four bytes as a socket takes it. -/
def netV4 (ip : Ipv4) : Std.Net.IPv4Addr := ⟨#v[ip.a, ip.b, ip.c, ip.d]⟩

/-- An address of eight groups as a socket takes it. -/
def netV6 (ip : Ipv6) : Std.Net.IPv6Addr := ⟨⟨ip.groups.toArray, by simp [ip.size]⟩⟩

/-- An address and a port as a socket takes them. -/
def netAddress : SocketAddress → Std.Net.SocketAddress
  | .v4 ip p => .v4 ⟨netV4 ip, p⟩
  | .v6 ip p _ => .v6 ⟨netV6 ip, p⟩

/-- The address of a socket. -/
def ofNetAddress : Std.Net.SocketAddress → SocketAddress
  | .v4 ⟨⟨o⟩, p⟩ => .v4 ⟨o[0], o[1], o[2], o[3]⟩ p
  | .v6 ⟨⟨s⟩, p⟩ => .v6 ⟨s.toList, by simp⟩ p 0

/-- The addresses of a host. -/
def addressesOf (host : Host) (port : UInt16) : Async (List Std.Net.SocketAddress) := do
  match host with
  | .v4 ip => return [.v4 ⟨netV4 ip, port⟩]
  | .v6 ip => return [.v6 ⟨netV6 ip, port⟩]
  | .domain name =>
    let found ← DNS.getAddrInfo (Ascii.text name) ""
    return found.toList.map fun
      | .v4 ip => .v4 ⟨ip, port⟩
      | .v6 ip => .v6 ⟨ip, port⟩

/-! ## Servers -/

/-- Answers the request that a connection has been asked, and tells whether the connection goes on. -/
def answer (content : Content) (client : Client) (socket : TCP.Socket.Client) (i : Incoming) :
    Async Bool := do
  let path := if i.request.method = .get then content.path? i.request.query? else none
  let (_, response, lines) :=
    Connection.handle content client (← filesAt path.toList) .accepted i.request
  printLog lines
  match response with
  | none => return false
  | some r =>
    socket.send ⟨(r.toBytes i.old i.persists (← clock)).toArray⟩
    return i.persists

/-- Tells a client why its request cannot be read. -/
def refuse (client : Client) (socket : TCP.Socket.Client) (f : BadRequest) : Async Unit := do
  printLog [Connection.failureLine client f.message]
  match f.response? with
  | none => return ()
  | some r => socket.send ⟨(r.toBytes false false (← clock)).toArray⟩

/-- Serves a connection until it ends: the bytes at hand first, and then those that arrive. -/
partial def converse (content : Content) (client : Client) (socket : TCP.Socket.Client)
    (reader : RequestReader) (atHand : Bytes) : Async Unit := do
  match reader.advance atHand with
  | .asked i reader rest =>
    if ← answer content client socket i then converse content client socket reader rest
  | .refused f => refuse client socket f
  | .waiting reader =>
    match ← socket.recv? 65536 with
    | some more => converse content client socket reader more.toList
    | none => match reader.finish with
      | some f => refuse client socket f
      | none => return ()

/-- Serves a connection, and closes it whatever comes. -/
def serve (content : Content) (client : Client) (socket : TCP.Socket.Client) : Async Unit := do
  let _ ← attempt (converse content client socket .start [])
  let _ ← attempt socket.shutdown

/-- Opens the socket of a server. -/
def bind (address : SocketAddress) : Async (TCP.Socket.Server × SocketAddress) := do
  let listener ← TCP.Socket.Server.mk
  listener.bind (netAddress address)
  listener.listen 1024
  return (listener, ofNetAddress (← listener.getSockName))

/-- Runs a server: waits for the next incident, and does what the server's reaction to it is. -/
partial def attend (listener : TCP.Socket.Server) (interrupt : Signal.Waiter) (s : Server) :
    Async Server := do
  match s.result? with
  | some _ => return s
  | none =>
    let happened ← attempt <| Selectable.one #[
      .case interrupt.selector fun _ => return (Incident.signal, none),
      .case listener.acceptSelector fun socket => do
        return (Incident.connect (ofNetAddress (← socket.getPeerName)), some socket)]
    let (incident, socket) := match happened with
      | .ok happened => happened
      | .error cause => (Incident.failure cause, none)
    let (s, effects) := s.step incident
    for e in effects do
      match e, socket with
      | .log line, _ => printLog [line]
      | .serve client, some socket => background (serve s.config.content client socket)
      | _, _ => pure ()
    attend listener interrupt s

/-- The program of a server. -/
def serverProgram (c : Command) (plan : Given → Plan) (args : List String) : Async UInt32 := do
  match c.read args with
  | .error stop => finish (.ofStop c stop)
  | .ok given =>
    let plan := plan given
    match plan.config (← filesAt plan.document?.toList) with
    | .error report => finish (.failed [] report)
    | .ok config =>
      match ← attempt (bind config.listen) with
      | .error cause => finish (.failed [] (Error.ioReport cause))
      | .ok (listener, address) =>
        let interrupt ← Signal.Waiter.mk .sigint false
        let (s, effects) := (Server.create config address true).step .run
        printLog (Server.logOf effects)
        match (← attend listener interrupt s).result? with
        | some (.error cause) => finish (.failed [] (Error.io cause).report)
        | _ => return 0

/-! ## Bots -/

/-- Opens a connection to the first of some addresses that takes it. -/
def connectAny (cause : IoError) : List Std.Net.SocketAddress →
    Async (Except IoError TCP.Socket.Client)
  | [] => return .error cause
  | a :: rest => do
    match ← attempt (do
        let socket ← TCP.Socket.Client.mk
        socket.connect a
        return socket) with
    | .ok socket => return .ok socket
    | .error cause => connectAny cause rest

/-- Collects the bytes of a response until nothing more is to come. -/
partial def collect (socket : TCP.Socket.Client) (reader : ResponseReader) (read : Bytes) :
    Async Bytes := do
  match ← attempt (socket.recv? 65536) with
  | .ok (some more) =>
    let read := read ++ more.toList
    match reader.run more.toList with
    | .ok (.complete _ _) | .error _ => return read
    | .ok reader => collect socket reader read
  | _ => return read

/-- What becomes of a connection for a URL over which a request is sent. -/
def contact (url : Url) (request : Option Request) : Async Answer := do
  match url.endpoint? with
  | none => return .unreachable .addressNotAvailable
  | some (host, port) =>
    match ← attempt (addressesOf host port) with
    | .error cause => return .unreachable cause
    | .ok addresses =>
      match ← connectAny .addressNotAvailable addresses with
      | .error cause => return .unreachable cause
      | .ok socket =>
        match request with
        | none => return .reply []
        | some request =>
          match ← attempt (socket.send ⟨request.toBytes.toArray⟩) with
          | .error _ => return .reply []
          | .ok _ => return .reply (← collect socket .start [])

/-- Takes a step of a bot. What the bot sends does not hang on what comes back, so the step is taken
once without an answer, to learn the request, and once more with the answer to it. -/
def take (bot : Bot) (step : Backend → Progress → Except Error Unit × Progress) (p : Progress) :
    Async (Except Error Unit × Progress) := do
  let (_, planned) := step (fun _ => .reply []) p
  printLog (planned.log.drop p.log.length)
  let reply ← if planned.tried = p.tried then pure (Answer.reply [])
    else contact bot.root (planned.sent.drop p.sent.length).head?
  let (outcome, q) := step (fun _ => reply) p
  printLog (q.log.drop planned.log.length)
  return (outcome, q)

/-- The iterations from number `i` on, so many of them out of `total`. -/
def iterate (bot : Bot) (total : Nat) : Nat → Nat → Words → Async (Except Error Unit)
  | _, 0, _ => return .ok ()
  | i, left + 1, words => do
    match ← take bot (bot.search · (Bot.heading i total)) (.start words) with
    | (.error e, _) => return .error e
    | (.ok _, p) =>
      let now ← clock
      match ← take bot (bot.report · now) (.start p.words) with
      | (.error e, _) => return .error e
      | (.ok _, p) =>
        sleep (.ofNat ((bot.window.nanoseconds + 999999) / 1000000))
        iterate bot total (i + 1) left p.words

/-- The program of the bot. -/
def botProgram (args : List String) : Async UInt32 := do
  match Cli.botCommand.read args with
  | .error stop => finish (.ofStop Cli.botCommand stop)
  | .ok given =>
    let files ← filesAt [Cli.pathOf given Cli.confSetting]
    match Cli.botOf given files (← clock) (← chance) with
    | .error e => finish (.failed [] e.report)
    | .ok (bot, words) =>
      printLog [Cli.sessionLine bot]
      let total := Cli.countOf given Cli.repeatSetting
      match ← iterate bot total 1 total words with
      | .ok _ => return 0
      | .error e => finish (.failed [] e.report)

/-! ## The choice of a program -/

/-- The program of a name. -/
def program? (name : String) : Option (List String → Async UInt32) :=
  if name = Cli.pagesCommand.program then some (serverProgram Cli.pagesCommand Cli.pagesPlan)
  else if name = Cli.documentCommand.program then
    some (serverProgram Cli.documentCommand Cli.documentPlan)
  else if name = Cli.botCommand.program then some botProgram
  else none

end GuideRig.Main

/-- Runs the program that the first argument names. -/
def main (args : List String) : IO UInt32 := do
  match args with
  | name :: rest =>
    match GuideRig.Main.program? name with
    | some program => (program rest).block
    | none => do
      IO.eprintln ("error: no program '" ++ name ++ "'")
      return 2
  | [] => do
    IO.eprintln ("error: a program is required: fixture-server, static-server or telebot")
    return 2
