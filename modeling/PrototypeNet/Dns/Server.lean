import PrototypeNet.Control.System

/-!
# The DNS server around `handle_aaaa`

The receive loop, the tasks it spawns and the replies they send.  A datagram is
shed when no permit is left; otherwise a task takes it over, holds one permit
until it ends, and runs under a timeout that can strike at any point where it
waits.  The calls of `handle_aaaa` are those of the control plane, so a state
of the server contains one of the control plane.
-/

namespace PrototypeNet

open ByteWords

/-! ## Messages -/

inductive MessageType
  | query
  | response
  deriving DecidableEq, Repr

inductive ResponseCode
  | noError
  | formErr
  | servFail
  | nxDomain
  deriving DecidableEq, Repr

inductive RecordType
  | a
  | aaaa
  | other (number : BitVec 16)
  deriving DecidableEq, Repr

structure Query where
  name : String
  queryType : RecordType
  queryClass : BitVec 16
  deriving DecidableEq, Repr

/-- An AAAA record, the only kind the server hands out. -/
structure Record where
  name : String
  ttl : BitVec 32
  dnsClass : BitVec 16
  aaaa : Ipv6Addr
  deriving DecidableEq, Repr

structure Message where
  id : BitVec 16
  messageType : MessageType
  opCode : BitVec 4
  recursionDesired : Bool
  recursionAvailable : Bool
  responseCode : ResponseCode
  queries : List Query
  answers : List Record
  deriving DecidableEq, Repr

/-- What the server reads of a parsed message. -/
structure Request where
  id : BitVec 16
  opCode : BitVec 4
  recursionDesired : Bool
  queries : List Query
  deriving DecidableEq, Repr

/-- The DNS library: it parses and prints messages. -/
structure Wire where
  fromVec : List Byte → Option Request
  toVec : Message → Option (List Byte)

def Message.new : Message where
  id := 0
  messageType := .query
  opCode := 0
  recursionDesired := false
  recursionAvailable := false
  responseCode := .noError
  queries := []
  answers := []

def dnsClassIn : BitVec 16 := 1

/-- `handle_query` and `servfail` begin a response in the same way. -/
def responseTo (request : Request) : Message :=
  { Message.new with
    id := request.id
    messageType := .response
    opCode := request.opCode
    recursionDesired := request.recursionDesired
    recursionAvailable := true
    queries := request.queries }

def servfail (wire : Wire) (queryBytes : List Byte) : Option (List Byte) := do
  let request ← wire.fromVec queryBytes
  wire.toVec { responseTo request with responseCode := .servFail }

/-! ## `handle_query` -/

/-- `handle_query` up to its only wait: it has failed, it has its response, or
it calls `handle_aaaa`. -/
inductive Dispatch
  | failed
  | respond (response : Message)
  | handleAaaa (name : String) (response : Message)
  deriving DecidableEq, Repr

/-- Only the first question is looked at. -/
def dispatch (wire : Wire) (data : List Byte) : Dispatch :=
  match wire.fromVec data with
  | none => .failed
  | some request =>
      match request.queries with
      | [] => .respond { responseTo request with responseCode := .formErr }
      | query :: _ =>
          match query.queryType with
          | .aaaa => .handleAaaa query.name (responseTo request)
          | .a => .respond { responseTo request with responseCode := .noError }
          | .other _ => .respond { responseTo request with responseCode := .noError }

/-- What `handle_aaaa` does to the response before it returns. -/
def complete (name : String) (response : Message) : Response → Message
  | .answer ttl synthetic =>
      { response with
        answers := response.answers ++ [⟨name, ttl, dnsClassIn, synthetic⟩]
        responseCode := .noError }
  | .nxDomain => { response with responseCode := .nxDomain }
  | .servFail => { response with responseCode := .servFail }

/-- The packet a task sends once `handle_query` is through.  An error of any
kind, also one of the encoder, is answered with SERVFAIL. -/
def handled (wire : Wire) (data : List Byte) (result : Option Message) : Option (List Byte) :=
  match result.bind wire.toVec with
  | some packet => some packet
  | none => servfail wire data

/-! ## State -/

/-- How a datagram was disposed of; `killed` when the server stopped first. -/
inductive Outcome
  | replied
  | sendFailed
  | unanswerable
  | killed
  deriving DecidableEq, Repr

/-- `shedding` is the receive loop itself, waiting in its `send_to`; the phases
from `spawned` to `timedOut` are those of a task. -/
inductive Phase
  | shedding (packet : List Byte)
  | spawned
  | running (call : ℕ) (name : String) (response : Message)
  | sending (packet : List Byte)
  | timedOut (packet : List Byte)
  | finished (outcome : Outcome)
  deriving DecidableEq, Repr

/-- A task owns its permit until it ends. -/
def Phase.holdsPermit : Phase → Bool
  | .shedding _ => false
  | .finished _ => false
  | _ => true

def Phase.isShedding : Phase → Bool
  | .shedding _ => true
  | _ => false

structure Exchange (Peer : Type) where
  data : List Byte
  src : Peer
  phase : Phase
  deriving DecidableEq, Repr

structure Sent (Peer : Type) where
  exchange : ℕ
  dst : Peer
  packet : List Byte
  deriving DecidableEq, Repr

/-- One exchange per datagram received, in order.  `orphans` are the calls whose
task has gone while a statement of theirs was with the database; `sent` records
every packet that left, and no step reads it. -/
structure Server (Peer : Type) where
  permits : ℕ
  exchanges : List (Exchange Peer)
  orphans : List ℕ
  control : State
  sent : List (Sent Peer)

def Server.init {Peer : Type} (maxConcurrent lastValue : ℕ) : Server Peer where
  permits := maxConcurrent
  exchanges := []
  orphans := []
  control := .init lastValue
  sent := []

/-! ## Steps -/

section Steps

variable {Peer : Type} (wire : Wire)

def Server.setPhase (s : Server Peer) (k : ℕ) (x : Exchange Peer) (phase : Phase) :
    Server Peer :=
  { s with exchanges := s.exchanges.set k { x with phase := phase } }

/-- A task moves on, and drops its permit if this was its end. -/
def Server.advance (s : Server Peer) (k : ℕ) (x : Exchange Peer) (phase : Phase) :
    Server Peer :=
  { s.setPhase k x phase with
    permits := if phase.holdsPermit then s.permits else s.permits + 1 }

def shed (data : List Byte) : Phase :=
  match servfail wire data with
  | some packet => .shedding packet
  | none => .finished .unanswerable

def afterHandling (data : List Byte) (result : Option Message) : Phase :=
  match handled wire data result with
  | some packet => .sending packet
  | none => .finished .unanswerable

def afterTimeout (data : List Byte) : Phase :=
  match servfail wire data with
  | some packet => .timedOut packet
  | none => .finished .unanswerable

/-- The receive loop.  It is not at `recv_from` while it sheds, and its buffer
holds 4096 bytes. -/
def recvStep (s : Server Peer) (datagram : List Byte) (src : Peer) : Option (Server Peer) :=
  let data := datagram.take 4096
  if s.exchanges.any (·.phase.isShedding) then none
  else match s.permits with
    | 0 => some { s with exchanges := s.exchanges ++ [⟨data, src, shed wire data⟩] }
    | permits + 1 =>
        some { s with
          permits := permits
          exchanges := s.exchanges ++ [⟨data, src, .spawned⟩] }

/-- The first poll of a task runs `handle_query` up to its first wait. -/
def pollStep (s : Server Peer) (k : ℕ) : Option (Server Peer) := do
  let x ← s.exchanges[k]?
  match x.phase with
  | .spawned =>
      match dispatch wire x.data with
      | .failed => s.advance k x (afterHandling wire x.data none)
      | .respond response => s.advance k x (afterHandling wire x.data (some response))
      | .handleAaaa name response =>
          some { s.advance k x (.running s.control.tasks.length name response) with
            control := { s.control with
              tasks := s.control.tasks ++ [⟨name, .findByDomain⟩] } }
  | _ => none

/-- The phase after a step of the call, by where the call then is. -/
def afterCall (data : List Byte) (call : ℕ) (name : String) (response : Message) : Pc → Phase
  | .done r => afterHandling wire data (some (complete name response r))
  | .failed => afterHandling wire data none
  | _ => .running call name response

def callStep (s : Server Peer) (k : ℕ) (e : DnsEvent) : Option (Server Peer) := do
  let x ← s.exchanges[k]?
  match x.phase with
  | .running call name response =>
      let control ← dnsStep s.control call e
      let t ← control.tasks[call]?
      some { s.advance k x (afterCall wire x.data call name response t.pc) with
        control := control }
  | _ => none

def Outcome.ofSend (ok : Bool) : Outcome :=
  if ok then .replied else .sendFailed

def Server.logSend (s : Server Peer) (k : ℕ) (x : Exchange Peer) (packet : List Byte)
    (ok : Bool) : Server Peer :=
  if ok then { s with sent := s.sent ++ [⟨k, x.src, packet⟩] } else s

/-- A `send_to` returns.  Whether it has failed makes no difference to the
sender. -/
def sendStep (s : Server Peer) (k : ℕ) (ok : Bool) : Option (Server Peer) := do
  let x ← s.exchanges[k]?
  match x.phase with
  | .shedding packet =>
      (s.setPhase k x (.finished (.ofSend ok))).logSend k x packet ok
  | .sending packet =>
      (s.advance k x (.finished (.ofSend ok))).logSend k x packet ok
  | .timedOut packet =>
      (s.advance k x (.finished (.ofSend ok))).logSend k x packet ok
  | _ => none

/-- The database may be at a statement of the call, which it will carry out
although nobody waits for it any more. -/
def Pc.atDatabase : Pc → Bool
  | .findByDomain => true
  | .nextDomainId _ => true
  | .insertDomain _ _ => true
  | _ => false

def orphansOf (s : Server Peer) (phase : Phase) : List ℕ :=
  match phase with
  | .running call _ _ =>
      match s.control.tasks[call]? with
      | some t => if t.pc.atDatabase then [call] else []
      | none => []
  | _ => []

/-- The timeout covers the whole of `handle_query` and the `send_to` after it,
not the SERVFAIL it sends itself. -/
def timeoutStep (s : Server Peer) (k : ℕ) : Option (Server Peer) := do
  let x ← s.exchanges[k]?
  let elapsed : Server Peer :=
    { s.advance k x (afterTimeout wire x.data) with
      orphans := s.orphans ++ orphansOf s x.phase }
  match x.phase with
  | .running _ _ _ => elapsed
  | .sending _ => elapsed
  | _ => none

def orphanStep (s : Server Peer) (call : ℕ) (e : DnsEvent) : Option (Server Peer) :=
  if call ∈ s.orphans then
    (dnsStep s.control call e).map fun control ↦
      { s with orphans := s.orphans.erase call, control := control }
  else none

def Phase.kill : Phase → Phase
  | .finished outcome => .finished outcome
  | _ => .finished .killed

/-- `recv_from` fails or the process is stopped, which takes every task with it,
and a new server starts. -/
def restartStep (maxConcurrent : ℕ) (s : Server Peer) : Server Peer :=
  { s with
    permits := maxConcurrent
    exchanges := s.exchanges.map fun x ↦ { x with phase := x.phase.kill }
    orphans := s.orphans ++ s.exchanges.flatMap fun x ↦ orphansOf s x.phase }

inductive ServerEvent (Peer : Type)
  | recv (datagram : List Byte) (src : Peer)
  | poll (k : ℕ)
  | call (k : ℕ) (e : DnsEvent)
  | send (k : ℕ) (ok : Bool)
  | timeout (k : ℕ)
  | orphan (call : ℕ) (e : DnsEvent)
  | restart
  | main (e : MainEvent)
  | listener (e : ListenerEvent)
  | resolver (e : ResolverEvent)
  deriving DecidableEq, Repr

/-- One step of the server, or of the daemon next to it. -/
def serverStep (maxConcurrent : ℕ) (printsAlike : Ipv6Addr → Bool) (s : Server Peer) :
    ServerEvent Peer → Option (Server Peer)
  | .recv datagram src => recvStep wire s datagram src
  | .poll k => pollStep wire s k
  | .call k e => callStep wire s k e
  | .send k ok => sendStep s k ok
  | .timeout k => timeoutStep wire s k
  | .orphan call e => orphanStep s call e
  | .restart => restartStep maxConcurrent s
  | .main e => (mainStep s.control e).map fun control ↦ { s with control := control }
  | .listener e => (listenerStep s.control e).map fun control ↦ { s with control := control }
  | .resolver e =>
      (resolverStep printsAlike s.control e).map fun control ↦ { s with control := control }

/-- The event of the control plane behind an event of the server, if any. -/
def ServerEvent.behind (s : Server Peer) : ServerEvent Peer → Option Event
  | .poll k =>
      match (s.exchanges[k]?).map fun x ↦ dispatch wire x.data with
      | some (.handleAaaa name _) => some (.query name)
      | _ => none
  | .call k e =>
      match (s.exchanges[k]?).map Exchange.phase with
      | some (.running n _ _) => some (.dns n e)
      | _ => none
  | .orphan n e => some (.dns n e)
  | .main e => some (.main e)
  | .listener e => some (.listener e)
  | .resolver e => some (.resolver e)
  | _ => none

end Steps

/-! ## A run with one permit -/

def demoRequest (id : BitVec 16) : Request :=
  ⟨id, 0, true, [⟨"A.", .aaaa, dnsClassIn⟩]⟩

def demoAnswered (id : BitVec 16) : Message :=
  complete "A." (responseTo (demoRequest id)) (.answer 300 (syntheticIpv6 1))

def demoServfail (id : BitVec 16) : Message :=
  { responseTo (demoRequest id) with responseCode := .servFail }

/-- One byte, the id, is a query for one name; three messages can be printed. -/
def demoWire : Wire where
  fromVec := fun data ↦ data.head?.map fun b ↦ demoRequest (b.setWidth 16)
  toVec := fun m ↦
    if m = demoAnswered 1 then some [1]
    else if m = demoAnswered 2 then some [2]
    else if m = demoServfail 2 then some [3] else none

/-- The second query meets a busy server; the third one finds the row that the
first one has stored. -/
def demoExchanges : List (ServerEvent ℕ) :=
  [.recv [1] 10, .recv [2] 20, .send 1 true, .poll 0, .call 0 .findByDomain,
    .call 0 (.lookupAaaa (.found (Vector.replicate 16 1))), .call 0 .nextDomainId,
    .call 0 .insertDomain, .send 0 true, .recv [2] 20, .poll 2, .call 2 .findByDomain,
    .send 2 true]

/-- The server after the first `n` of these events. -/
def demoServer (n : ℕ) : Option (Server ℕ) :=
  Runs.play (serverStep demoWire 1 fun _ ↦ true) (.init 1 0) (demoExchanges.take n)

end PrototypeNet
