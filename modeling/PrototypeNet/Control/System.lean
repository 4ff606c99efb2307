import PrototypeNet.Lib.Runs
import PrototypeNet.Control.Domains
import PrototypeNet.Ebpf.Kernel

/-!
# The control plane

The DNS server and the daemon around the table they share.  Any number of
`handle_aaaa` calls run at once, next to the three activities of the daemon:
the start-up with its bulk load, the listener and the periodic resolver.  One
event is one atomic step of one of them: a statement on the database, an
upstream lookup, a map insert or a change of the listening connection.  A run
is any list of events, so every interleaving is covered.
-/

namespace PrototypeNet

open Runs

/-! ## State -/

inductive Upstream
  | found (ip : Ipv6Addr)
  | noRecords
  | failed
  deriving DecidableEq, Repr

inductive Response
  | answer (ttl : BitVec 32) (synthetic : Ipv6Addr)
  | nxDomain
  | servFail
  deriving DecidableEq, Repr

/-- Where a `handle_aaaa` call is, by the step it takes next. -/
inductive Pc
  | findByDomain
  | lookupAaaa
  | nextDomainId (origin : Ipv6Addr)
  | insertDomain (origin : Ipv6Addr) (domainId : BitVec 32)
  | done (response : Response)
  | failed
  deriving DecidableEq, Repr

/-- Trailing dots and case do not matter. -/
def normalize (name : String) : String :=
  String.ofList ((name.toList.reverse.dropWhile (· = '.')).reverse.map Char.toLower)

structure Task where
  name : String
  pc : Pc
  deriving DecidableEq, Repr

def Task.domain (t : Task) : String :=
  normalize t.name

inductive Handler
  | idle
  | fetch (domainId : BitVec 32)
  | insert (domainId : BitVec 32) (origin : Ipv6Addr)
  deriving DecidableEq, Repr

/-- The listening connection, with the notifications not yet received, and the
handler, which works on another connection. -/
structure Listener where
  queue : Option (List (BitVec 32))
  handler : Handler
  deriving DecidableEq, Repr

inductive Resolver
  | idle
  | pass (rows : List Row)
  | update (domainId : BitVec 32) (ip : Ipv6Addr) (rows : List Row)
  | remap (domainId : BitVec 32) (ip : Ipv6Addr) (rows : List Row)
  deriving DecidableEq, Repr

/-- The phases of the daemon.  Listener and resolver exist once the bulk load
is through. -/
inductive Daemon
  | down
  | starting
  | loading (rows : List Row)
  | running (listener : Listener) (resolver : Resolver)
  deriving DecidableEq, Repr

/-- `lookups` records every upstream answer, for which name and with which
address; no step reads it. -/
structure State where
  domains : Domains
  lastValue : ℕ
  tasks : List Task
  natMap : NatMap
  daemon : Daemon
  lookups : List (String × Ipv6Addr)

def State.init (lastValue : ℕ) : State where
  domains := .empty
  lastValue := lastValue
  tasks := []
  natMap := .empty
  daemon := .down
  lookups := []

def State.setPc (s : State) (n : ℕ) (t : Task) (pc : Pc) : State :=
  { s with tasks := s.tasks.set n { t with pc := pc } }

/-- `pg_notify` reaches a connection that listens, and nobody else. -/
def Daemon.notify : Daemon → BitVec 32 → Daemon
  | .running ⟨some queue, handler⟩ resolver, domainId =>
      .running ⟨some (queue ++ [domainId]), handler⟩ resolver
  | d, _ => d

def State.commit (s : State) (domains : Domains) (domainId : BitVec 32) : State :=
  { s with domains := domains, daemon := s.daemon.notify domainId }

def State.record (s : State) (domain : String) (ip : Ipv6Addr) : State :=
  { s with lookups := s.lookups ++ [(domain, ip)] }

def State.setSeq (s : State) (lastValue : ℕ) : State :=
  { s with lastValue := lastValue }

@[simp] theorem daemon_setPc (s : State) (n : ℕ) (t : Task) (pc : Pc) :
    (s.setPc n t pc).daemon = s.daemon := rfl

@[simp] theorem daemon_commit (s : State) (domains : Domains) (domainId : BitVec 32) :
    (s.commit domains domainId).daemon = s.daemon.notify domainId := rfl

def State.write (s : State) (domainId : BitVec 32) (origin : Ipv6Addr) (daemon : Daemon) :
    Option State :=
  (s.natMap.insert domainId ⟨origin⟩).map fun natMap ↦
    { s with natMap := natMap, daemon := daemon }

/-! ## The DNS server -/

inductive DnsEvent
  | findByDomain
  | lookupAaaa (result : Upstream)
  | nextDomainId
  | insertDomain
  | dbError
  deriving DecidableEq, Repr

/-- `nextval`; a sequence ends at the largest `bigint`. -/
def nextval (lastValue : ℕ) : Option ℕ :=
  if lastValue + 1 < 2 ^ 63 then some (lastValue + 1) else none

/-- One step of call `n`.  The id is truncated from 64 to 32 bits, and the
answer carries what the upsert returned. -/
def dnsStep (s : State) (n : ℕ) (e : DnsEvent) : Option State := do
  let t ← s.tasks[n]?
  match t.pc with
  | .findByDomain =>
      match e with
      | .findByDomain =>
          match s.domains.findByDomain t.domain with
          | some row =>
              s.setPc n t (.done (.answer (row.ttlSeconds.getD 300) row.syntheticIpv6))
          | none => s.setPc n t .lookupAaaa
      | .dbError => s.setPc n t .failed
      | _ => none
  | .lookupAaaa =>
      match e with
      | .lookupAaaa result =>
          match result with
          | .found ip => (s.setPc n t (.nextDomainId ip)).record t.domain ip
          | .noRecords => s.setPc n t (.done .nxDomain)
          | .failed => s.setPc n t (.done .servFail)
      | _ => none
  | .nextDomainId origin =>
      match e with
      | .nextDomainId =>
          match nextval s.lastValue with
          | some v => (s.setPc n t (.insertDomain origin (BitVec.ofNat 32 v))).setSeq v
          | none => s.setPc n t .failed
      | .dbError => s.setPc n t .failed
      | _ => none
  | .insertDomain origin domainId =>
      match e with
      | .insertDomain =>
          match s.domains.insertDomain domainId t.domain origin (syntheticIpv6 domainId) 300 with
          | some (domains, storedId, storedSynthetic) =>
              (s.setPc n t (.done (.answer 300 storedSynthetic))).commit domains storedId
          | none => s.setPc n t .failed
      | .dbError => s.setPc n t .failed
      | _ => none
  | .done _ => none
  | .failed => none

/-! ## The daemon -/

/-- The main function: start with empty maps, snapshot the table, insert row by
row, then spawn the listener and the resolver.  Any error ends the process. -/
inductive MainEvent
  | start
  | exit
  | select
  | load
  | spawn
  deriving DecidableEq, Repr

def mainStep (s : State) (e : MainEvent) : Option State :=
  match e with
  | .start => some { s with natMap := .empty, daemon := .starting }
  | .exit => some { s with daemon := .down }
  | .select =>
      match s.daemon with
      | .starting => some { s with daemon := .loading s.domains.rows }
      | _ => none
  | .load =>
      match s.daemon with
      | .loading (row :: rows) => s.write row.domainId row.originIpv6 (.loading rows)
      | _ => none
  | .spawn =>
      match s.daemon with
      | .loading [] => some { s with daemon := .running ⟨none, .idle⟩ .idle }
      | _ => none

/-- The listener.  Losing the connection loses what it has not received; a
fetch that fails gives the connection up; a map insert that fails is logged. -/
inductive ListenerEvent
  | listen
  | disconnect
  | recv
  | fetch
  | fetchError
  | store
  | storeError
  deriving DecidableEq, Repr

def listenerStep (s : State) (e : ListenerEvent) : Option State :=
  match s.daemon with
  | .running listener resolver =>
      match e with
      | .listen =>
          match listener with
          | ⟨none, .idle⟩ => some { s with daemon := .running ⟨some [], .idle⟩ resolver }
          | _ => none
      | .disconnect =>
          match listener with
          | ⟨some _, handler⟩ => some { s with daemon := .running ⟨none, handler⟩ resolver }
          | _ => none
      | .recv =>
          match listener with
          | ⟨some (domainId :: queue), .idle⟩ =>
              some { s with daemon := .running ⟨some queue, .fetch domainId⟩ resolver }
          | _ => none
      | .fetch =>
          match listener with
          | ⟨queue, .fetch domainId⟩ =>
              let handler := match s.domains.findById domainId with
                | some row => Handler.insert domainId row.originIpv6
                | none => Handler.idle
              some { s with daemon := .running ⟨queue, handler⟩ resolver }
          | _ => none
      | .fetchError =>
          match listener with
          | ⟨_, .fetch _⟩ => some { s with daemon := .running ⟨none, .idle⟩ resolver }
          | _ => none
      | .store =>
          match listener with
          | ⟨queue, .insert domainId origin⟩ =>
              s.write domainId origin (.running ⟨queue, .idle⟩ resolver)
          | _ => none
      | .storeError =>
          match listener with
          | ⟨queue, .insert _ _⟩ => some { s with daemon := .running ⟨queue, .idle⟩ resolver }
          | _ => none
  | _ => none

/-- The periodic resolver.  A statement or a map insert that fails ends the
pass. -/
inductive ResolverEvent
  | tick
  | lookup (result : Upstream)
  | update
  | remap
  | passError
  | passDone
  deriving DecidableEq, Repr

/-- The resolver compares texts: a new address differs from the stored one, or
Postgres prints it in another way than the daemon does. -/
def originChanged (printsAlike : Ipv6Addr → Bool) (row : Row) (ip : Ipv6Addr) : Bool :=
  decide (ip ≠ row.originIpv6) || !printsAlike ip

def resolverStep (printsAlike : Ipv6Addr → Bool) (s : State) (e : ResolverEvent) :
    Option State :=
  match s.daemon with
  | .running listener resolver =>
      match e with
      | .tick =>
          match resolver with
          | .idle => some { s with daemon := .running listener (.pass s.domains.rows) }
          | _ => none
      | .lookup result =>
          match resolver with
          | .pass (row :: rows) =>
              match result with
              | .found ip =>
                  let next := if originChanged printsAlike row ip
                    then Resolver.update row.domainId ip rows else Resolver.pass rows
                  some (State.record { s with daemon := .running listener next } row.domain ip)
              | _ => some { s with daemon := .running listener (.pass rows) }
          | _ => none
      | .update =>
          match resolver with
          | .update domainId ip rows =>
              let s' := { s with daemon := .running listener (.remap domainId ip rows) }
              -- Without a row to update no trigger fires.
              if (s.domains.findById domainId).isSome then
                some (s'.commit (s.domains.updateOrigin domainId ip) domainId)
              else some s'
          | _ => none
      | .remap =>
          match resolver with
          | .remap domainId ip rows => s.write domainId ip (.running listener (.pass rows))
          | _ => none
      | .passError =>
          match resolver with
          | .update _ _ _ => some { s with daemon := .running listener .idle }
          | .remap _ _ _ => some { s with daemon := .running listener .idle }
          | _ => none
      | .passDone =>
          match resolver with
          | .pass [] => some { s with daemon := .running listener .idle }
          | _ => none
  | _ => none

/-! ## The whole system -/

inductive Event
  | query (name : String)
  | dns (n : ℕ) (e : DnsEvent)
  | main (e : MainEvent)
  | listener (e : ListenerEvent)
  | resolver (e : ResolverEvent)
  deriving DecidableEq, Repr

def step (printsAlike : Ipv6Addr → Bool) (s : State) : Event → Option State
  | .query name => some { s with tasks := s.tasks ++ [⟨name, .findByDomain⟩] }
  | .dns n e => dnsStep s n e
  | .main e => mainStep s e
  | .listener e => listenerStep s e
  | .resolver e => resolverStep printsAlike s e

end PrototypeNet
