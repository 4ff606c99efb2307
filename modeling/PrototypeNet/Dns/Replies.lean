import PrototypeNet.Dns.Server
import PrototypeNet.Control.Allocation

/-!
# What the DNS server sends

Over any run of the server, with any timeouts, failed sends and restarts: the
permits add up, a datagram is answered at most once and then properly, and an
address that was once sent for a name is the one stored for it.  The server
makes no step the control plane does not have, so what holds of every run of
the control plane holds behind it.
-/

namespace PrototypeNet

open Runs ByteWords

variable {Peer : Type} {wire : Wire} {maxConcurrent : ℕ} {printsAlike : Ipv6Addr → Bool}

/-! ## Transitions -/

/-- The result of `handle_query` when it does not have to wait. -/
def Immediate (wire : Wire) (data : List Byte) (result : Option Message) : Prop :=
  dispatch wire data = .failed ∧ result = none ∨
    ∃ response, dispatch wire data = .respond response ∧ result = some response

inductive ServerTransition (wire : Wire) (maxConcurrent : ℕ) (printsAlike : Ipv6Addr → Bool)
    (s : Server Peer) : ServerEvent Peer → Server Peer → Prop
  | shed {datagram data : List Byte} {src : Peer} (hpermits : s.permits = 0) :
      ServerTransition wire maxConcurrent printsAlike s (.recv datagram src)
        { s with exchanges := s.exchanges ++ [⟨data, src, shed wire data⟩] }
  | spawn {datagram data : List Byte} {src : Peer} {permits : ℕ}
      (hpermits : s.permits = permits + 1) :
      ServerTransition wire maxConcurrent printsAlike s (.recv datagram src)
        { s with permits := permits, exchanges := s.exchanges ++ [⟨data, src, .spawned⟩] }
  | respond {k : ℕ} {x : Exchange Peer} {result : Option Message}
      (hx : s.exchanges[k]? = some x) (hphase : x.phase = .spawned)
      (hresult : Immediate wire x.data result) :
      ServerTransition wire maxConcurrent printsAlike s (.poll k)
        (s.advance k x (afterHandling wire x.data result))
  | handleAaaa {k : ℕ} {x : Exchange Peer} {name : String} {response : Message} {control : State}
      (hx : s.exchanges[k]? = some x) (hphase : x.phase = .spawned)
      (hdispatch : dispatch wire x.data = .handleAaaa name response)
      (hstep : step printsAlike s.control (.query name) = some control) :
      ServerTransition wire maxConcurrent printsAlike s (.poll k)
        { s.advance k x (.running s.control.tasks.length name response) with control := control }
  | call {k n : ℕ} {e : DnsEvent} {x : Exchange Peer} {name : String} {response : Message}
      {control : State} {t : Task} (hx : s.exchanges[k]? = some x)
      (hphase : x.phase = .running n name response)
      (hstep : step printsAlike s.control (.dns n e) = some control)
      (ht : control.tasks[n]? = some t) :
      ServerTransition wire maxConcurrent printsAlike s (.call k e)
        { s.advance k x (afterCall wire x.data n name response t.pc) with control := control }
  | shedSent {k : ℕ} {x : Exchange Peer} {packet : List Byte} {ok : Bool}
      (hx : s.exchanges[k]? = some x) (hphase : x.phase = .shedding packet) :
      ServerTransition wire maxConcurrent printsAlike s (.send k ok)
        ((s.setPhase k x (.finished (.ofSend ok))).logSend k x packet ok)
  | taskSent {k : ℕ} {x : Exchange Peer} {packet : List Byte} {ok : Bool}
      (hx : s.exchanges[k]? = some x)
      (hphase : x.phase = .sending packet ∨ x.phase = .timedOut packet) :
      ServerTransition wire maxConcurrent printsAlike s (.send k ok)
        ((s.advance k x (.finished (.ofSend ok))).logSend k x packet ok)
  | timeout {k : ℕ} {x : Exchange Peer} (hx : s.exchanges[k]? = some x)
      (hphase : (∃ n name response, x.phase = .running n name response) ∨
        ∃ packet, x.phase = .sending packet) :
      ServerTransition wire maxConcurrent printsAlike s (.timeout k)
        { s.advance k x (afterTimeout wire x.data) with
          orphans := s.orphans ++ orphansOf s x.phase }
  | restart : ServerTransition wire maxConcurrent printsAlike s .restart
      (restartStep maxConcurrent s)
  -- A statement nobody waits for, or a step of the daemon.
  | control {e : ServerEvent Peer} {d : Event} {control : State} {orphans : List ℕ}
      (hbehind : e.behind wire s = some d) (hstep : step printsAlike s.control d = some control) :
      ServerTransition wire maxConcurrent printsAlike s e
        { s with control := control, orphans := orphans }

theorem pollStep_sound {s s' : Server Peer} {k : ℕ} (h : pollStep wire s k = some s') :
    ServerTransition wire maxConcurrent printsAlike s (.poll k) s' := by
  obtain ⟨x, hx, hrest⟩ := Option.bind_eq_some_iff.mp h
  clear h
  split at hrest
  · split at hrest <;> cases hrest
    · exact .respond hx ‹_› (.inl ⟨‹_›, rfl⟩)
    · exact .respond hx ‹_› (.inr ⟨_, ‹_›, rfl⟩)
    · exact .handleAaaa hx ‹_› ‹_› rfl
  · cases hrest

theorem callStep_sound {s s' : Server Peer} {k : ℕ} {e : DnsEvent}
    (h : callStep wire s k e = some s') :
    ServerTransition wire maxConcurrent printsAlike s (.call k e) s' := by
  obtain ⟨x, hx, hrest⟩ := Option.bind_eq_some_iff.mp h
  clear h
  split at hrest
  · obtain ⟨control, hstep, hrest⟩ := Option.bind_eq_some_iff.mp hrest
    obtain ⟨t, ht, hrest⟩ := Option.bind_eq_some_iff.mp hrest
    cases hrest
    exact .call hx ‹_› hstep ht
  · cases hrest

theorem sendStep_sound {s s' : Server Peer} {k : ℕ} {ok : Bool} (h : sendStep s k ok = some s') :
    ServerTransition wire maxConcurrent printsAlike s (.send k ok) s' := by
  obtain ⟨x, hx, hrest⟩ := Option.bind_eq_some_iff.mp h
  clear h
  split at hrest <;> cases hrest
  · exact .shedSent hx ‹_›
  · exact .taskSent hx (.inl ‹_›)
  · exact .taskSent hx (.inr ‹_›)

theorem timeoutStep_sound {s s' : Server Peer} {k : ℕ} (h : timeoutStep wire s k = some s') :
    ServerTransition wire maxConcurrent printsAlike s (.timeout k) s' := by
  obtain ⟨x, hx, hrest⟩ := Option.bind_eq_some_iff.mp h
  clear h
  split at hrest <;> cases hrest
  · exact .timeout hx (.inl ⟨_, _, _, ‹_›⟩)
  · exact .timeout hx (.inr ⟨_, ‹_›⟩)

theorem recvStep_cases {s s' : Server Peer} {datagram : List Byte} {src : Peer}
    (h : recvStep wire s datagram src = some s') :
    s.permits = 0 ∧ s' = { s with
      exchanges := s.exchanges ++
        [⟨datagram.take 4096, src, shed wire (datagram.take 4096)⟩] } ∨
    ∃ permits, s.permits = permits + 1 ∧ s' = { s with
      permits := permits
      exchanges := s.exchanges ++ [⟨datagram.take 4096, src, .spawned⟩] } := by
  unfold recvStep at h
  split at h
  · cases h
  · split at h <;> cases h
    · exact .inl ⟨‹_›, rfl⟩
    · exact .inr ⟨_, ‹_›, rfl⟩

theorem orphanStep_sound {s s' : Server Peer} {call : ℕ} {e : DnsEvent}
    (h : orphanStep s call e = some s') :
    ServerTransition wire maxConcurrent printsAlike s (.orphan call e) s' := by
  unfold orphanStep at h
  split at h
  · obtain ⟨control, hstep, rfl⟩ := Option.map_eq_some_iff.mp h
    exact .control rfl hstep
  · cases h

theorem serverStep_sound {s s' : Server Peer} {e : ServerEvent Peer}
    (h : serverStep wire maxConcurrent printsAlike s e = some s') :
    ServerTransition wire maxConcurrent printsAlike s e s' := by
  cases e with
  | recv datagram src =>
      rcases recvStep_cases h with ⟨hpermits, rfl⟩ | ⟨permits, hpermits, rfl⟩
      · exact .shed hpermits
      · exact .spawn hpermits
  | poll k => exact pollStep_sound h
  | call k e => exact callStep_sound h
  | send k ok => exact sendStep_sound h
  | timeout k => exact timeoutStep_sound h
  | restart =>
      cases h
      exact .restart
  | orphan call e => exact orphanStep_sound h
  | main e =>
      obtain ⟨control, hstep, rfl⟩ := Option.map_eq_some_iff.mp h
      exact .control rfl hstep
  | listener e =>
      obtain ⟨control, hstep, rfl⟩ := Option.map_eq_some_iff.mp h
      exact .control rfl hstep
  | resolver e =>
      obtain ⟨control, hstep, rfl⟩ := Option.map_eq_some_iff.mp h
      exact .control rfl hstep

@[simp] theorem control_logSend (s : Server Peer) (k : ℕ) (x : Exchange Peer)
    (packet : List Byte) (ok : Bool) : (s.logSend k x packet ok).control = s.control := by
  cases ok <;> rfl

@[simp] theorem exchanges_logSend (s : Server Peer) (k : ℕ) (x : Exchange Peer)
    (packet : List Byte) (ok : Bool) : (s.logSend k x packet ok).exchanges = s.exchanges := by
  cases ok <;> rfl

@[simp] theorem permits_logSend (s : Server Peer) (k : ℕ) (x : Exchange Peer)
    (packet : List Byte) (ok : Bool) : (s.logSend k x packet ok).permits = s.permits := by
  cases ok <;> rfl

/-! ## The control plane behind the server -/

theorem ServerTransition.projects {s s' : Server Peer} {e : ServerEvent Peer}
    (h : ServerTransition wire maxConcurrent printsAlike s e s') :
    play (step printsAlike) s.control (e.behind wire s).toList = some s'.control := by
  cases h with
  | shed hpermits => rfl
  | spawn hpermits => rfl
  | respond hx hphase hresult =>
      rcases hresult with ⟨hdispatch, -⟩ | ⟨response, hdispatch, -⟩ <;>
        simp [ServerEvent.behind, hx, hdispatch, play] <;> rfl
  | handleAaaa hx hphase hdispatch hstep =>
      simp [ServerEvent.behind, hx, hdispatch, play, hstep]
  | call hx hphase hstep ht => simp [ServerEvent.behind, hx, hphase, play, hstep]
  | shedSent hx hphase =>
      rw [control_logSend]
      rfl
  | taskSent hx hphase =>
      rw [control_logSend]
      rfl
  | timeout hx hphase => rfl
  | restart => rfl
  | control hbehind hstep => simp [hbehind, play, hstep]

/-- Behind every run of the server is a run of the control plane: timeouts,
restarts and statements whose caller has gone add no behaviour. -/
theorem server_refines_control (wire : Wire) (maxConcurrent lastValue : ℕ)
    (printsAlike : Ipv6Addr → Bool) (es : List (ServerEvent Peer)) (s : Server Peer)
    (h : play (serverStep wire maxConcurrent printsAlike) (.init maxConcurrent lastValue) es =
      some s) :
    play (step printsAlike) (.init lastValue)
      (project (serverStep wire maxConcurrent printsAlike) (fun s e ↦ e.behind wire s)
        (.init maxConcurrent lastValue) es) = some s.control :=
  play_project Server.control _ (fun _ _ _ hs ↦ (serverStep_sound hs).projects) h

theorem server_refines_control_demo :
    ∃ s, demoServer 13 = some s ∧ s.control.tasks.length = 2 ∧
      play (step fun _ ↦ true) (.init 0)
        [.query "A.", .dns 0 .findByDomain,
          .dns 0 (.lookupAaaa (.found (Vector.replicate 16 1))), .dns 0 .nextDomainId,
          .dns 0 .insertDomain, .query "A.", .dns 1 .findByDomain] = some s.control := by
  have hrun : (demoServer 13).map (·.control.tasks.length) = some 2 := by
    decide +kernel
  obtain ⟨s, hs, htasks⟩ := Option.map_eq_some_iff.mp hrun
  have hproject : project (serverStep demoWire 1 fun _ ↦ true) (fun s e ↦ e.behind demoWire s)
      (.init 1 0) demoExchanges = [.query "A.", .dns 0 .findByDomain,
        .dns 0 (.lookupAaaa (.found (Vector.replicate 16 1))), .dns 0 .nextDomainId,
        .dns 0 .insertDomain, .query "A.", .dns 1 .findByDomain] := by
    decide +kernel
  exact ⟨s, hs, htasks, hproject ▸ server_refines_control _ _ _ _ _ s hs⟩

/-! ## Permits -/

def permitsHeld (exchanges : List (Exchange Peer)) : ℕ :=
  exchanges.countP (·.phase.holdsPermit)

/-- Permits free and permits held are all there are. -/
def Server.Conserved (maxConcurrent : ℕ) (s : Server Peer) : Prop :=
  s.permits + permitsHeld s.exchanges = maxConcurrent

theorem permitsHeld_concat (l : List (Exchange Peer)) (x : Exchange Peer) :
    permitsHeld (l ++ [x]) = permitsHeld l + if x.phase.holdsPermit then 1 else 0 := by
  unfold permitsHeld
  rw [List.countP_append, List.countP_singleton]

theorem permitsHeld_set {l : List (Exchange Peer)} {k : ℕ} {x : Exchange Peer}
    (hx : l[k]? = some x) (y : Exchange Peer) :
    permitsHeld (l.set k y) + (if x.phase.holdsPermit then 1 else 0) =
      permitsHeld l + if y.phase.holdsPermit then 1 else 0 := by
  obtain ⟨hk, rfl⟩ := List.getElem?_eq_some_iff.mp hx
  have hpos : (if l[k].phase.holdsPermit then 1 else 0) ≤ permitsHeld l := by
    split
    · exact List.countP_pos_iff.mpr ⟨_, List.getElem_mem hk, ‹_›⟩
    · exact Nat.zero_le _
  unfold permitsHeld at *
  rw [List.countP_set hk]
  omega

theorem permitsHeld_kill (l : List (Exchange Peer)) :
    permitsHeld (l.map fun x ↦ { x with phase := x.phase.kill }) = 0 := by
  unfold permitsHeld
  rw [List.countP_map, List.countP_eq_zero]
  intro x _
  rcases hx : x.phase <;> simp [hx, Phase.kill, Phase.holdsPermit]

theorem holdsPermit_shed (wire : Wire) (data : List Byte) :
    (shed wire data).holdsPermit = false := by
  unfold shed
  split <;> rfl

theorem conserved_advance {s : Server Peer} {k : ℕ} {x : Exchange Peer} (phase : Phase)
    (h : s.Conserved maxConcurrent) (hx : s.exchanges[k]? = some x)
    (hold : x.phase.holdsPermit = true) :
    (s.advance k x phase).permits + permitsHeld (s.advance k x phase).exchanges =
      maxConcurrent := by
  have hset := permitsHeld_set hx { x with phase := phase }
  unfold Server.Conserved at h
  unfold Server.advance Server.setPhase
  rw [if_pos hold] at hset
  cases hphase : phase.holdsPermit <;>
    simp only [hphase, if_true, Bool.false_eq_true, if_false] at hset ⊢ <;> omega

theorem ServerTransition.keeps_conserved {s s' : Server Peer} {e : ServerEvent Peer}
    (hs : ServerTransition wire maxConcurrent printsAlike s e s')
    (h : s.Conserved maxConcurrent) : s'.Conserved maxConcurrent := by
  cases hs with
  | shed hpermits =>
      unfold Server.Conserved at *
      rw [permitsHeld_concat, holdsPermit_shed]
      exact h
  | spawn hpermits =>
      unfold Server.Conserved at *
      rw [permitsHeld_concat]
      simp only [Phase.holdsPermit, if_true]
      omega
  | respond hx hphase hresult => exact conserved_advance _ h hx (by rw [hphase]; rfl)
  | handleAaaa hx hphase hdispatch hstep =>
      exact conserved_advance (.running _ _ _) h hx (by rw [hphase]; rfl)
  | call hx hphase hstep ht => exact conserved_advance _ h hx (by rw [hphase]; rfl)
  | @shedSent k x packet ok hx hphase =>
      have hset := permitsHeld_set hx { x with phase := .finished (.ofSend ok) }
      simp only [hphase, Phase.holdsPermit, Bool.false_eq_true, if_false] at hset
      unfold Server.Conserved at *
      rw [permits_logSend, exchanges_logSend, ← h]
      exact congrArg (s.permits + ·) hset
  | taskSent hx hphase =>
      unfold Server.Conserved
      rw [permits_logSend, exchanges_logSend]
      refine conserved_advance _ h hx ?_
      rcases hphase with hphase | hphase <;> rw [hphase] <;> rfl
  | timeout hx hphase =>
      refine conserved_advance _ h hx ?_
      rcases hphase with ⟨n, name, response, hphase⟩ | ⟨packet, hphase⟩ <;> rw [hphase] <;> rfl
  | restart =>
      unfold Server.Conserved restartStep
      rw [permitsHeld_kill]
      rfl
  | control hbehind hstep => exact h

theorem conserved_of_play {lastValue : ℕ} {es : List (ServerEvent Peer)} {s : Server Peer}
    (h : play (serverStep wire maxConcurrent printsAlike) (.init maxConcurrent lastValue) es =
      some s) : s.Conserved maxConcurrent := by
  have hinit : (Server.init maxConcurrent lastValue : Server Peer).Conserved maxConcurrent := rfl
  exact play_invariant (Server.Conserved maxConcurrent)
    (fun _ _ _ hI hs ↦ (serverStep_sound hs).keeps_conserved hI) hinit h

/-- At most `max_concurrent` queries are ever in flight, and one that arrives
starts a task exactly when fewer are. -/
theorem query_refused_iff_saturated (wire : Wire) (maxConcurrent lastValue : ℕ)
    (printsAlike : Ipv6Addr → Bool) (es : List (ServerEvent Peer)) (s : Server Peer)
    (h : play (serverStep wire maxConcurrent printsAlike) (.init maxConcurrent lastValue) es =
      some s) :
    permitsHeld s.exchanges ≤ maxConcurrent ∧
      ∀ datagram src s',
        serverStep wire maxConcurrent printsAlike s (.recv datagram src) = some s' →
          s'.exchanges = s.exchanges ++ [⟨datagram.take 4096, src,
            if permitsHeld s.exchanges < maxConcurrent then .spawned
            else shed wire (datagram.take 4096)⟩] := by
  have hs : s.permits + permitsHeld s.exchanges = maxConcurrent := conserved_of_play h
  refine ⟨by omega, ?_⟩
  intro datagram src s' hrecv
  rcases recvStep_cases hrecv with ⟨hpermits, rfl⟩ | ⟨permits, hpermits, rfl⟩
  · rw [if_neg (by omega)]
  · rw [if_pos (by omega)]

theorem query_refused_iff_saturated_demo :
    ∃ s s', demoServer 1 = some s ∧
      serverStep demoWire 1 (fun _ ↦ true) s (.recv [2] 20) = some s' ∧
      s'.exchanges = s.exchanges ++ [⟨[2], 20, .shedding [3]⟩] := by
  have hrun : (demoServer 1).map (fun s ↦ (permitsHeld s.exchanges,
      (serverStep demoWire 1 (fun _ ↦ true) s (.recv [2] 20)).isSome)) = some (1, true) := by
    decide +kernel
  have hshed : shed demoWire [2] = .shedding [3] := by decide +kernel
  obtain ⟨s, hs, hsome⟩ := Option.map_eq_some_iff.mp hrun
  obtain ⟨hheld, hnext⟩ := Prod.mk.inj hsome
  obtain ⟨s', hs'⟩ := Option.isSome_iff_exists.mp hnext
  have := (query_refused_iff_saturated _ _ _ _ _ s hs).2 [2] 20 s' hs'
  rw [if_neg (by omega)] at this
  exact ⟨s, s', hs, hs', by rw [this, ← hshed]; rfl⟩

/-! ## Replies -/

/-- A response to the request, apart from its code and its answers. -/
structure Message.RepliesTo (m : Message) (request : Request) : Prop where
  id : m.id = request.id
  messageType : m.messageType = .response
  opCode : m.opCode = request.opCode
  recursionDesired : m.recursionDesired = request.recursionDesired
  recursionAvailable : m.recursionAvailable = true
  queries : m.queries = request.queries

/-- An answer is to the first question, which asks for AAAA, and carries the
address allocated to its name. -/
def Message.AnswersFrom (m : Message) (request : Request)
    (allocation : String ≃. BitVec 32) : Prop :=
  ∀ r ∈ m.answers, ∃ query rest, request.queries = query :: rest ∧ query.queryType = .aaaa ∧
    r.name = query.name ∧ r.dnsClass = dnsClassIn ∧
      ∃ i ∈ allocation (normalize r.name), r.aaaa = syntheticIpv6 i

def IsReply (wire : Wire) (allocation : String ≃. BitVec 32) (data packet : List Byte) : Prop :=
  ∃ request m, wire.fromVec data = some request ∧ wire.toVec m = some packet ∧
    m.RepliesTo request ∧ m.AnswersFrom request allocation

theorem IsReply.mono {f g : String ≃. BitVec 32} {data packet : List Byte}
    (h : IsReply wire f data packet) (hfg : f ≤ g) : IsReply wire g data packet := by
  obtain ⟨request, m, hdata, hpacket, hm, hans⟩ := h
  refine ⟨request, m, hdata, hpacket, hm, ?_⟩
  intro r hr
  obtain ⟨query, rest, hqueries, htype, hname, hclass, i, hi, haaaa⟩ := hans r hr
  exact ⟨query, rest, hqueries, htype, hname, hclass, i, hfg _ i hi, haaaa⟩

theorem repliesTo_responseTo (request : Request) (code : ResponseCode) :
    Message.RepliesTo { responseTo request with responseCode := code } request :=
  ⟨rfl, rfl, rfl, rfl, rfl, rfl⟩

theorem answersFrom_of_empty {m : Message} (h : m.answers = []) (request : Request)
    (allocation : String ≃. BitVec 32) : m.AnswersFrom request allocation := by
  intro r hr
  rw [h] at hr
  exact absurd hr List.not_mem_nil

theorem isReply_of_servfail {data packet : List Byte} (h : servfail wire data = some packet)
    (allocation : String ≃. BitVec 32) : IsReply wire allocation data packet := by
  obtain ⟨request, hdata, hpacket⟩ := Option.bind_eq_some_iff.mp h
  exact ⟨request, _, hdata, hpacket, repliesTo_responseTo request .servFail,
    answersFrom_of_empty rfl _ _⟩

/-- What `handle_query` may return: nothing, or a message that would be a reply. -/
def GoodResult (wire : Wire) (allocation : String ≃. BitVec 32) (data : List Byte)
    (result : Option Message) : Prop :=
  ∀ m ∈ result, ∃ request, wire.fromVec data = some request ∧ m.RepliesTo request ∧
    m.AnswersFrom request allocation

theorem isReply_of_handled {allocation : String ≃. BitVec 32} {data packet : List Byte}
    {result : Option Message} (hgood : GoodResult wire allocation data result)
    (h : handled wire data result = some packet) : IsReply wire allocation data packet := by
  unfold handled at h
  split at h
  · cases h
    obtain ⟨m, hm, hpacket⟩ := Option.bind_eq_some_iff.mp ‹_›
    obtain ⟨request, hdata, hreply, hans⟩ := hgood m hm
    exact ⟨request, m, hdata, hpacket, hreply, hans⟩
  · exact isReply_of_servfail h allocation

theorem servfail_eq_none_of_handled {data : List Byte} {result : Option Message}
    (h : handled wire data result = none) : servfail wire data = none := by
  unfold handled at h
  split at h
  · cases h
  · exact h

theorem goodResult_of_immediate {data : List Byte} {result : Option Message}
    (h : Immediate wire data result) (allocation : String ≃. BitVec 32) :
    GoodResult wire allocation data result := by
  rintro m rfl
  rcases h with ⟨-, hnone⟩ | ⟨response, hdispatch, heq⟩
  · cases hnone
  · cases heq
    unfold dispatch at hdispatch
    split at hdispatch
    · cases hdispatch
    · rename_i request hdata
      refine ⟨request, hdata, ?_⟩
      split at hdispatch
      · cases hdispatch
        exact ⟨repliesTo_responseTo _ _, answersFrom_of_empty rfl _ _⟩
      · split at hdispatch <;> cases hdispatch <;>
          exact ⟨repliesTo_responseTo _ _, answersFrom_of_empty rfl _ _⟩

theorem dispatch_eq_handleAaaa {data : List Byte} {name : String} {response : Message}
    (h : dispatch wire data = .handleAaaa name response) :
    ∃ request query rest, wire.fromVec data = some request ∧ request.queries = query :: rest ∧
      query.queryType = .aaaa ∧ name = query.name ∧ response = responseTo request := by
  unfold dispatch at h
  split at h
  · cases h
  · split at h
    · cases h
    · split at h <;> cases h
      exact ⟨_, _, _, ‹_›, ‹_›, ‹_›, rfl, rfl⟩

/-- The response of a call, once the call's own answer is the allocated one. -/
theorem goodResult_complete {allocation : String ≃. BitVec 32} {data : List Byte} {name : String}
    {response : Message} {r : Response} (h : dispatch wire data = .handleAaaa name response)
    (hans : ∀ ttl a, r = .answer ttl a → ∃ i ∈ allocation (normalize name), a = syntheticIpv6 i) :
    GoodResult wire allocation data (some (complete name response r)) := by
  rintro m ⟨⟩
  obtain ⟨request, query, rest, hdata, hqueries, htype, rfl, rfl⟩ := dispatch_eq_handleAaaa h
  refine ⟨request, hdata, ?_⟩
  cases r with
  | answer ttl a =>
      refine ⟨⟨rfl, rfl, rfl, rfl, rfl, rfl⟩, ?_⟩
      intro r hr
      cases List.mem_singleton.mp hr
      exact ⟨query, rest, hqueries, htype, rfl, rfl, hans ttl a rfl⟩
  | nxDomain => exact ⟨repliesTo_responseTo _ _, answersFrom_of_empty rfl _ _⟩
  | servFail => exact ⟨repliesTo_responseTo _ _, answersFrom_of_empty rfl _ _⟩

/-! ## Exchanges -/

/-- Call `n` of the control plane is one for this name. -/
def State.Calls (s : State) (n : ℕ) (name : String) : Prop :=
  (s.tasks[n]?).map Task.name = some name

theorem calls_setPc {s : State} {m n : ℕ} {t : Task} {name : String} (pc : Pc)
    (ht : s.tasks[m]? = some t) (h : s.Calls n name) : (s.setPc m t pc).Calls n name := by
  unfold State.Calls State.setPc at *
  rw [List.getElem?_set]
  split
  · subst m
    rw [ht] at h
    rw [if_pos (List.getElem?_eq_some_iff.mp ht).1]
    exact h
  · exact h

theorem step_calls {s s' : State} {d : Event} {n : ℕ} {name : String}
    (hs : step printsAlike s d = some s') (h : s.Calls n name) : s'.Calls n name := by
  cases d with
  | query other =>
      cases hs
      obtain ⟨t, ht, hname⟩ := Option.map_eq_some_iff.mp h
      unfold State.Calls
      rw [List.getElem?_append_left (List.getElem?_eq_some_iff.mp ht).1, ht, Option.map_some, hname]
  | dns m e =>
      obtain ⟨t, ht, htrans⟩ := dnsStep_sound hs
      cases htrans <;> exact calls_setPc _ ht h
  | main e =>
      unfold State.Calls
      rw [(mainStep_sound hs).frame.2.1]
      exact h
  | listener e =>
      unfold State.Calls
      rw [(listenerStep_sound hs).frame.2.1]
      exact h
  | resolver e =>
      unfold State.Calls
      rw [(resolverStep_sound hs).frame.2.1]
      exact h

theorem calls_of_query {s s' : State} {name : String}
    (h : step printsAlike s (.query name) = some s') : s'.Calls s.tasks.length name := by
  cases h
  unfold State.Calls
  rw [List.getElem?_concat_length]
  rfl

/-- What a phase says about the datagram: a packet about to be sent is a reply
to it, and a call under way is the one it asks for. -/
def Phase.Sound (wire : Wire) (control : State) (data : List Byte) : Phase → Prop
  | .shedding packet => IsReply wire control.domains.allocation data packet
  | .spawned => True
  | .running n name response =>
      control.Calls n name ∧ dispatch wire data = .handleAaaa name response
  | .sending packet => IsReply wire control.domains.allocation data packet
  | .timedOut packet => IsReply wire control.domains.allocation data packet
  | .finished outcome => outcome = .unanswerable → servfail wire data = none

theorem Phase.Sound.step {control control' : State} {d : Event} {data : List Byte} {phase : Phase}
    (h : phase.Sound wire control data) (hs : step printsAlike control d = some control') :
    phase.Sound wire control' data := by
  have hgrows := (step_grows hs).allocation
  cases phase with
  | shedding packet => exact IsReply.mono h hgrows
  | spawned => trivial
  | running n name response => exact ⟨step_calls hs h.1, h.2⟩
  | sending packet => exact IsReply.mono h hgrows
  | timedOut packet => exact IsReply.mono h hgrows
  | finished outcome => exact h

theorem Phase.Sound.kill {control : State} {data : List Byte} {phase : Phase}
    (h : phase.Sound wire control data) : phase.kill.Sound wire control data := by
  cases phase <;> first | exact h | rintro ⟨⟩

theorem sound_shed (control : State) (data : List Byte) :
    (shed wire data).Sound wire control data := by
  unfold shed
  split
  · exact isReply_of_servfail ‹_› _
  · exact fun _ ↦ ‹_›

theorem sound_afterTimeout (control : State) (data : List Byte) :
    (afterTimeout wire data).Sound wire control data := by
  unfold afterTimeout
  split
  · exact isReply_of_servfail ‹_› _
  · exact fun _ ↦ ‹_›

theorem sound_afterHandling {control : State} {data : List Byte} {result : Option Message}
    (h : GoodResult wire control.domains.allocation data result) :
    (afterHandling wire data result).Sound wire control data := by
  unfold afterHandling
  split
  · exact isReply_of_handled h ‹_›
  · exact fun _ ↦ servfail_eq_none_of_handled ‹_›

theorem sound_afterCall {control : State} {data : List Byte} {n : ℕ} {name : String}
    {response : Message} {t : Task} (ht : control.tasks[n]? = some t) (hname : t.name = name)
    (hans : t.AnswersFrom control.domains.allocation)
    (hdispatch : dispatch wire data = .handleAaaa name response) :
    (afterCall wire data n name response t.pc).Sound wire control data := by
  have hcalls : control.Calls n name := by
    unfold State.Calls
    rw [ht, Option.map_some, hname]
  cases hpc : t.pc with
  | done r =>
      refine sound_afterHandling (goodResult_complete hdispatch ?_)
      rintro ttl a rfl
      have := hans ttl a hpc
      rwa [Task.domain, hname] at this
  | failed => exact sound_afterHandling fun m hm ↦ absurd hm (Option.not_mem_none m)
  | findByDomain => exact ⟨hcalls, hdispatch⟩
  | lookupAaaa => exact ⟨hcalls, hdispatch⟩
  | nextDomainId origin => exact ⟨hcalls, hdispatch⟩
  | insertDomain origin domainId => exact ⟨hcalls, hdispatch⟩

/-! ## The log -/

def repliesTo (sent : List (Sent Peer)) (k : ℕ) : List (Sent Peer) :=
  sent.filter (·.exchange = k)

/-- An exchange that ended with a reply has exactly one packet in the log, sent
to where the datagram came from; any other exchange has none. -/
structure Logged (wire : Wire) (allocation : String ≃. BitVec 32)
    (exchanges : List (Exchange Peer)) (sent : List (Sent Peer)) : Prop where
  known : ∀ m ∈ sent, m.exchange < exchanges.length
  replied : ∀ k x, exchanges[k]? = some x → x.phase = .finished .replied →
    ∃ packet, repliesTo sent k = [⟨k, x.src, packet⟩] ∧ IsReply wire allocation x.data packet
  silent : ∀ k x, exchanges[k]? = some x → x.phase ≠ .finished .replied → repliesTo sent k = []

section Log

theorem of_getElem?_concat {l : List (Exchange Peer)} {x y : Exchange Peer} {k : ℕ}
    (h : (l ++ [x])[k]? = some y) : l[k]? = some y ∨ k = l.length ∧ x = y := by
  rcases lt_trichotomy k l.length with hk | rfl | hk
  · rw [List.getElem?_append_left hk] at h
    exact .inl h
  · rw [List.getElem?_concat_length] at h
    exact .inr ⟨rfl, Option.some.inj h⟩
  · rw [List.getElem?_eq_none (by simpa using hk)] at h
    cases h

theorem of_getElem?_set {l : List (Exchange Peer)} {x y : Exchange Peer} {j k : ℕ}
    (h : (l.set k x)[j]? = some y) : j = k ∧ x = y ∨ j ≠ k ∧ l[j]? = some y := by
  rw [List.getElem?_set] at h
  split at h
  · subst j
    split at h <;> cases h
    exact .inl ⟨rfl, rfl⟩
  · exact .inr ⟨fun hjk ↦ absurd hjk.symm ‹_›, h⟩

variable {allocation : String ≃. BitVec 32} {exchanges : List (Exchange Peer)}
  {sent : List (Sent Peer)}

theorem Logged.mono {g : String ≃. BitVec 32} (h : Logged wire allocation exchanges sent)
    (hg : allocation ≤ g) : Logged wire g exchanges sent := by
  refine ⟨h.known, ?_, h.silent⟩
  intro k x hx hphase
  obtain ⟨packet, hlog, hreply⟩ := h.replied k x hx hphase
  exact ⟨packet, hlog, hreply.mono hg⟩

theorem Logged.concat (h : Logged wire allocation exchanges sent) {x : Exchange Peer}
    (hphase : x.phase ≠ .finished .replied) :
    Logged wire allocation (exchanges ++ [x]) sent := by
  have hnew : repliesTo sent exchanges.length = [] := by
    refine List.filter_eq_nil_iff.mpr ?_
    intro m hm
    have := h.known m hm
    simp only [decide_eq_true_eq]
    omega
  refine ⟨?_, ?_, ?_⟩
  · intro m hm
    rw [List.length_append]
    exact Nat.lt_add_right _ (h.known m hm)
  · intro k y hy hreplied
    rcases of_getElem?_concat hy with hy | ⟨rfl, rfl⟩
    · exact h.replied k y hy hreplied
    · exact absurd hreplied hphase
  · intro k y hy hsilent
    rcases of_getElem?_concat hy with hy | ⟨rfl, rfl⟩
    · exact h.silent k y hy hsilent
    · exact hnew

/-- An exchange that has not ended moves on without a reply. -/
theorem Logged.set (h : Logged wire allocation exchanges sent) {k : ℕ} {x : Exchange Peer}
    {phase : Phase} (hx : exchanges[k]? = some x) (hold : x.phase ≠ .finished .replied)
    (hphase : phase ≠ .finished .replied) :
    Logged wire allocation (exchanges.set k { x with phase := phase }) sent := by
  refine ⟨?_, ?_, ?_⟩
  · intro m hm
    rw [List.length_set]
    exact h.known m hm
  · intro j y hy hreplied
    rcases of_getElem?_set hy with ⟨rfl, rfl⟩ | ⟨-, hy⟩
    · exact absurd hreplied hphase
    · exact h.replied j y hy hreplied
  · intro j y hy hsilent
    rcases of_getElem?_set hy with ⟨rfl, rfl⟩ | ⟨-, hy⟩
    · exact h.silent j x hx hold
    · exact h.silent j y hy hsilent

theorem repliesTo_concat (sent : List (Sent Peer)) (m : Sent Peer) (k : ℕ) :
    repliesTo (sent ++ [m]) k = repliesTo sent k ++ if m.exchange = k then [m] else [] := by
  unfold repliesTo
  rw [List.filter_append, List.filter_singleton]
  simp

theorem Logged.reply (h : Logged wire allocation exchanges sent) {k : ℕ} {x : Exchange Peer}
    {packet : List Byte} (hx : exchanges[k]? = some x) (hold : x.phase ≠ .finished .replied)
    (hreply : IsReply wire allocation x.data packet) :
    Logged wire allocation (exchanges.set k { x with phase := .finished .replied })
      (sent ++ [⟨k, x.src, packet⟩]) := by
  refine ⟨?_, ?_, ?_⟩
  · intro m hm
    rw [List.length_set]
    rcases List.mem_append.mp hm with hm | hm
    · exact h.known m hm
    · rw [List.mem_singleton.mp hm]
      exact (List.getElem?_eq_some_iff.mp hx).1
  · intro j y hy hreplied
    rw [repliesTo_concat]
    rcases of_getElem?_set hy with ⟨rfl, rfl⟩ | ⟨hne, hy⟩
    · rw [h.silent j x hx hold, if_pos rfl]
      exact ⟨packet, rfl, hreply⟩
    · rw [if_neg (Ne.symm hne), List.append_nil]
      exact h.replied j y hy hreplied
  · intro j y hy hsilent
    rw [repliesTo_concat]
    rcases of_getElem?_set hy with ⟨rfl, rfl⟩ | ⟨hne, hy⟩
    · exact absurd rfl hsilent
    · rw [if_neg (Ne.symm hne), List.append_nil]
      exact h.silent j y hy hsilent

theorem kill_eq_replied {phase : Phase} :
    phase.kill = .finished .replied ↔ phase = .finished .replied := by
  cases phase <;> simp [Phase.kill]

theorem Logged.kill (h : Logged wire allocation exchanges sent) :
    Logged wire allocation (exchanges.map fun x ↦ { x with phase := x.phase.kill }) sent := by
  refine ⟨?_, ?_, ?_⟩
  · intro m hm
    rw [List.length_map]
    exact h.known m hm
  · intro k y hy hreplied
    rw [List.getElem?_map] at hy
    obtain ⟨x, hx, rfl⟩ := Option.map_eq_some_iff.mp hy
    exact h.replied k x hx (kill_eq_replied.mp hreplied)
  · intro k y hy hsilent
    rw [List.getElem?_map] at hy
    obtain ⟨x, hx, rfl⟩ := Option.map_eq_some_iff.mp hy
    exact h.silent k x hx fun hphase ↦ hsilent (kill_eq_replied.mpr hphase)

end Log

/-! ## Runs of the server -/

structure Server.Answering (wire : Wire) (s : Server Peer) : Prop where
  allocated : s.control.Allocated
  sound : ∀ x ∈ s.exchanges, x.phase.Sound wire s.control x.data
  logged : Logged wire s.control.domains.allocation s.exchanges s.sent

theorem answering_init (wire : Wire) (maxConcurrent lastValue : ℕ) :
    (Server.init maxConcurrent lastValue : Server Peer).Answering wire where
  allocated := allocated_init lastValue
  sound := fun _ hx ↦ absurd hx List.not_mem_nil
  logged := ⟨fun _ hm ↦ absurd hm List.not_mem_nil,
    fun _ _ hx ↦ absurd hx (by simp [Server.init]), fun _ _ hx ↦ absurd hx (by simp [Server.init])⟩

theorem shed_ne_replied (wire : Wire) (data : List Byte) :
    shed wire data ≠ .finished .replied := by
  unfold shed
  split <;> simp

theorem afterHandling_ne_replied (wire : Wire) (data : List Byte) (result : Option Message) :
    afterHandling wire data result ≠ .finished .replied := by
  unfold afterHandling
  split <;> simp

theorem afterTimeout_ne_replied (wire : Wire) (data : List Byte) :
    afterTimeout wire data ≠ .finished .replied := by
  unfold afterTimeout
  split <;> simp

theorem afterCall_ne_replied (wire : Wire) (data : List Byte) (n : ℕ) (name : String)
    (response : Message) (pc : Pc) :
    afterCall wire data n name response pc ≠ .finished .replied := by
  unfold afterCall
  split <;> first | exact afterHandling_ne_replied _ _ _ | simp

/-- The exchanges stay sound when one of them gets a sound phase. -/
theorem sound_set {exchanges : List (Exchange Peer)} {control : State} {k : ℕ} {x : Exchange Peer}
    {phase : Phase} (h : ∀ y ∈ exchanges, y.phase.Sound wire control y.data)
    (hphase : phase.Sound wire control x.data) :
    ∀ y ∈ exchanges.set k { x with phase := phase }, y.phase.Sound wire control y.data := by
  intro y hy
  rcases List.mem_or_eq_of_mem_set hy with hy | rfl
  · exact h y hy
  · exact hphase

theorem sound_concat {exchanges : List (Exchange Peer)} {control : State} {x : Exchange Peer}
    (h : ∀ y ∈ exchanges, y.phase.Sound wire control y.data)
    (hx : x.phase.Sound wire control x.data) :
    ∀ y ∈ exchanges ++ [x], y.phase.Sound wire control y.data := by
  intro y hy
  rcases List.mem_append.mp hy with hy | hy
  · exact h y hy
  · rw [List.mem_singleton.mp hy]
    exact hx

theorem Server.Answering.step {s : Server Peer} {d : Event} {control : State}
    (h : s.Answering wire) (hs : PrototypeNet.step printsAlike s.control d = some control) :
    Server.Answering wire { s with control := control } where
  allocated := step_allocated h.allocated hs
  sound := fun x hx ↦ (h.sound x hx).step hs
  logged := h.logged.mono (step_grows hs).allocation

theorem Server.Answering.setPhase {s : Server Peer} {k : ℕ} {x : Exchange Peer}
    (h : s.Answering wire) (phase : Phase) (hx : s.exchanges[k]? = some x)
    (hold : x.phase ≠ .finished .replied) (hphase : phase ≠ .finished .replied)
    (hsound : phase.Sound wire s.control x.data) (permits : ℕ) (orphans : List ℕ) :
    Server.Answering wire
      { s.setPhase k x phase with permits := permits, orphans := orphans } where
  allocated := h.allocated
  sound := sound_set h.sound hsound
  logged := h.logged.set hx hold hphase

/-- A `send_to` of the task or of the receive loop returns. -/
theorem Server.Answering.send {s : Server Peer} {k : ℕ} {x : Exchange Peer} {packet : List Byte}
    (h : s.Answering wire) (hx : s.exchanges[k]? = some x)
    (hold : x.phase ≠ .finished .replied)
    (hreply : IsReply wire s.control.domains.allocation x.data packet) (ok : Bool) (permits : ℕ) :
    Server.Answering wire
      (Server.logSend { s.setPhase k x (.finished (.ofSend ok)) with permits := permits }
        k x packet ok) := by
  cases ok with
  | false => exact h.setPhase _ hx hold (by simp [Outcome.ofSend]) (by rintro ⟨⟩) permits s.orphans
  | true =>
      exact ⟨h.allocated, sound_set h.sound (by rintro ⟨⟩), h.logged.reply hx hold hreply⟩

theorem ServerTransition.keeps_answering {s s' : Server Peer} {e : ServerEvent Peer}
    (hs : ServerTransition wire maxConcurrent printsAlike s e s') (h : s.Answering wire) :
    s'.Answering wire := by
  have hsound : ∀ {k : ℕ} {x : Exchange Peer}, s.exchanges[k]? = some x →
      x.phase.Sound wire s.control x.data := fun hx ↦ h.sound _ (List.mem_of_getElem? hx)
  cases hs with
  | shed hpermits =>
      exact ⟨h.allocated, sound_concat h.sound (sound_shed _ _),
        h.logged.concat (shed_ne_replied _ _)⟩
  | spawn hpermits =>
      exact ⟨h.allocated, sound_concat h.sound trivial, h.logged.concat (by simp)⟩
  | respond hx hphase hresult =>
      exact h.setPhase _ hx (by simp [hphase]) (afterHandling_ne_replied _ _ _)
        (sound_afterHandling (goodResult_of_immediate hresult _)) _ _
  | handleAaaa hx hphase hdispatch hstep =>
      -- The call is new, so the phase is sound only after the step of the control plane.
      have hcalls := calls_of_query hstep
      exact (h.step hstep).setPhase (.running _ _ _) hx (by simp [hphase]) (by simp)
        ⟨hcalls, hdispatch⟩ _ _
  | @call k n e x name response control t hx hphase hstep ht =>
      have hold := hsound hx
      rw [hphase] at hold
      obtain ⟨hcalls, hdispatch⟩ := hold
      have hname : t.name = name := by
        have := step_calls hstep hcalls
        rw [State.Calls, ht, Option.map_some] at this
        exact Option.some.inj this
      have hnext := h.step hstep
      exact hnext.setPhase _ hx (by simp [hphase]) (afterCall_ne_replied _ _ _ _ _ _)
        (sound_afterCall ht hname (hnext.allocated.answers t (List.mem_of_getElem? ht)) hdispatch)
        _ _
  | shedSent hx hphase =>
      have hreply := hsound hx
      rw [hphase] at hreply
      exact h.send hx (by simp [hphase]) hreply _ _
  | taskSent hx hphase =>
      have hreply := hsound hx
      refine h.send hx ?_ ?_ _ _
      · rcases hphase with hphase | hphase <;> simp [hphase]
      · rcases hphase with hphase | hphase <;> rwa [hphase] at hreply
  | timeout hx hphase =>
      refine h.setPhase _ hx ?_ (afterTimeout_ne_replied _ _) (sound_afterTimeout _ _) _ _
      rcases hphase with ⟨n, name, response, hphase⟩ | ⟨packet, hphase⟩ <;> simp [hphase]
  | restart =>
      refine ⟨h.allocated, ?_, h.logged.kill⟩
      intro y hy
      obtain ⟨x, hx, rfl⟩ := List.mem_map.mp hy
      exact (h.sound x hx).kill
  | control hbehind hstep =>
      obtain ⟨halloc, hsnd, hlog⟩ := h.step hstep
      exact ⟨halloc, hsnd, hlog⟩

theorem answering_of_play {lastValue : ℕ} {es : List (ServerEvent Peer)} {s : Server Peer}
    (h : play (serverStep wire maxConcurrent printsAlike) (.init maxConcurrent lastValue) es =
      some s) : s.Answering wire :=
  play_invariant (Server.Answering wire)
    (fun _ _ _ hI hs ↦ (serverStep_sound hs).keeps_answering hI)
    (answering_init wire maxConcurrent lastValue) h

/-- Whatever happens to a datagram, at most one packet is sent for it, to where
it came from, and this packet is a response to it.  None is sent only if the
exchange is still open, a send has failed, the server was stopped or the
datagram cannot be answered at all. -/
theorem one_reply_per_datagram (wire : Wire) (maxConcurrent lastValue : ℕ)
    (printsAlike : Ipv6Addr → Bool) (es : List (ServerEvent Peer)) (s : Server Peer)
    (h : play (serverStep wire maxConcurrent printsAlike) (.init maxConcurrent lastValue) es =
      some s) :
    (∀ m ∈ s.sent, m.exchange < s.exchanges.length) ∧
    ∀ k x, s.exchanges[k]? = some x →
      (x.phase = .finished .replied →
        ∃ packet request m, s.sent.filter (·.exchange = k) = [⟨k, x.src, packet⟩] ∧
          wire.fromVec x.data = some request ∧ wire.toVec m = some packet ∧
          m.RepliesTo request) ∧
      (x.phase ≠ .finished .replied → s.sent.filter (·.exchange = k) = []) ∧
      (x.phase = .finished .unanswerable → servfail wire x.data = none) := by
  obtain ⟨-, hsound, hlog⟩ := answering_of_play h
  refine ⟨hlog.known, ?_⟩
  intro k x hx
  refine ⟨?_, hlog.silent k x hx, ?_⟩
  · intro hphase
    obtain ⟨packet, hsent, request, m, hdata, hpacket, hreply, -⟩ := hlog.replied k x hx hphase
    exact ⟨packet, request, m, hsent, hdata, hpacket, hreply⟩
  · intro hphase
    have := hsound x (List.mem_of_getElem? hx)
    rw [hphase] at this
    exact this rfl

theorem one_reply_per_datagram_demo :
    ∃ s packet, demoServer 13 = some s ∧
      s.sent.filter (·.exchange = 2) = [⟨2, 20, packet⟩] := by
  have hrun : (demoServer 13).map (fun s ↦ s.exchanges[2]?) =
      some (some ⟨[2], 20, .finished .replied⟩) := by
    decide +kernel
  obtain ⟨s, hs, hx⟩ := Option.map_eq_some_iff.mp hrun
  obtain ⟨packet, -, -, hsent, -⟩ := ((one_reply_per_datagram _ _ _ _ _ s hs).2 2 _ hx).1 rfl
  exact ⟨s, packet, hs, hsent⟩

theorem isReply_of_sent {s : Server Peer} (h : s.Answering wire) {m : Sent Peer}
    (hm : m ∈ s.sent) :
    ∃ data, IsReply wire s.control.domains.allocation data m.packet := by
  obtain ⟨x, hx⟩ : ∃ x, s.exchanges[m.exchange]? = some x :=
    ⟨_, List.getElem?_eq_getElem (h.logged.known m hm)⟩
  have hmem : m ∈ repliesTo s.sent m.exchange :=
    List.mem_filter.mpr ⟨hm, decide_eq_true rfl⟩
  by_cases hphase : x.phase = .finished .replied
  · obtain ⟨packet, hlog, hreply⟩ := h.logged.replied _ x hx hphase
    rw [hlog] at hmem
    rw [List.mem_singleton.mp hmem]
    exact ⟨x.data, hreply⟩
  · rw [h.logged.silent _ x hx hphase] at hmem
    exact absurd hmem List.not_mem_nil

/-- Read back by a client, every address the server has ever sent for a name is
the one stored for it, so two of them agree exactly if their names do. -/
theorem sent_addresses_agree (wire : Wire) (read : List Byte → Option Message)
    (hread : ∀ m packet, wire.toVec m = some packet → read packet = some m)
    (maxConcurrent lastValue : ℕ) (printsAlike : Ipv6Addr → Bool)
    (es : List (ServerEvent Peer)) (s : Server Peer)
    (h : play (serverStep wire maxConcurrent printsAlike) (.init maxConcurrent lastValue) es =
      some s) :
    (∀ p ∈ s.sent, ∃ m, read p.packet = some m ∧ ∀ r ∈ m.answers,
      ∃ row ∈ s.control.domains.rows,
        row.domain = normalize r.name ∧ row.syntheticIpv6 = r.aaaa) ∧
    ∀ p ∈ s.sent, ∀ p' ∈ s.sent, ∀ m m', read p.packet = some m → read p'.packet = some m' →
      ∀ r ∈ m.answers, ∀ r' ∈ m'.answers,
        normalize r.name = normalize r'.name ↔ r.aaaa = r'.aaaa := by
  have hs := answering_of_play h
  have hfrom : ∀ p ∈ s.sent, ∃ m, read p.packet = some m ∧ ∀ r ∈ m.answers,
      ∃ i ∈ s.control.domains.allocation (normalize r.name), r.aaaa = syntheticIpv6 i := by
    intro p hp
    obtain ⟨data, request, m, -, hpacket, -, hans⟩ := isReply_of_sent hs hp
    refine ⟨m, hread m _ hpacket, ?_⟩
    intro r hr
    obtain ⟨_, _, -, -, -, -, halloc⟩ := hans r hr
    exact halloc
  constructor
  · intro p hp
    obtain ⟨m, hm, hans⟩ := hfrom p hp
    refine ⟨m, hm, ?_⟩
    intro r hr
    obtain ⟨i, hi, haaaa⟩ := hans r hr
    obtain ⟨row, hrow, hdomain, rfl⟩ := Domains.mem_allocation_iff.mp hi
    exact ⟨row, hrow, hdomain, (hs.allocated.addressed row hrow).trans haaaa.symm⟩
  · intro p hp p' hp' m m' hm hm' r hr r' hr'
    obtain ⟨m₁, hm₁, hans⟩ := hfrom p hp
    obtain ⟨m₂, hm₂, hans'⟩ := hfrom p' hp'
    cases hm.symm.trans hm₁
    cases hm'.symm.trans hm₂
    obtain ⟨i, hi, haaaa⟩ := hans r hr
    obtain ⟨i', hi', haaaa'⟩ := hans' r' hr'
    constructor
    · intro hname
      rw [hname] at hi
      rw [haaaa, haaaa', Option.mem_unique hi hi']
    · intro heq
      rw [haaaa, haaaa'] at heq
      cases syntheticIpv6_injective heq
      exact s.control.domains.allocation.inj hi hi'

def demoRead (packet : List Byte) : Option Message :=
  if packet = [1] then some (demoAnswered 1)
  else if packet = [2] then some (demoAnswered 2)
  else if packet = [3] then some (demoServfail 2) else none

theorem demoRead_toVec (m : Message) (packet : List Byte)
    (h : demoWire.toVec m = some packet) : demoRead packet = some m := by
  simp only [demoWire] at h
  split at h
  · cases h
    simp [demoRead, *]
  · split at h
    · cases h
      simp [demoRead, *]
    · split at h <;> cases h
      simp [demoRead, *]

theorem sent_addresses_agree_demo :
    ∃ s, demoServer 13 = some s ∧
      s.sent = [⟨1, 20, [3]⟩, ⟨0, 10, [1]⟩, ⟨2, 20, [2]⟩] ∧
      ∀ r ∈ (demoAnswered 1).answers, ∀ r' ∈ (demoAnswered 2).answers, r.aaaa = r'.aaaa := by
  have hrun : (demoServer 13).map (·.sent) =
      some [⟨1, 20, [3]⟩, ⟨0, 10, [1]⟩, ⟨2, 20, [2]⟩] := by
    decide +kernel
  obtain ⟨s, hs, hsent⟩ := Option.map_eq_some_iff.mp hrun
  have hagree := (sent_addresses_agree demoWire demoRead demoRead_toVec _ _ _ _ s hs).2
    ⟨0, 10, [1]⟩ (by simp [hsent]) ⟨2, 20, [2]⟩ (by simp [hsent]) (demoAnswered 1) (demoAnswered 2)
    rfl rfl
  refine ⟨s, hs, hsent, ?_⟩
  intro r hr r' hr'
  refine (hagree r hr r' hr').mp ?_
  rw [List.mem_singleton.mp hr, List.mem_singleton.mp hr']

/-! ## Nothing holds a permit for good -/

/-- Some steps of the server itself end exchange `k` and free its permit. -/
def CanEnd (wire : Wire) (maxConcurrent : ℕ) (printsAlike : Ipv6Addr → Bool) (s : Server Peer)
    (k : ℕ) (x : Exchange Peer) : Prop :=
  ∃ es s' outcome, (∀ e ∈ es, e = .poll k ∨ e = .timeout k ∨ e = .send k false) ∧
    play (serverStep wire maxConcurrent printsAlike) s es = some s' ∧
    s'.exchanges = s.exchanges.set k { x with phase := .finished outcome } ∧
    s'.permits = s.permits + 1 ∧ s'.control.domains = s.control.domains

theorem CanEnd.cons {s u : Server Peer} {k : ℕ} {x : Exchange Peer} {phase : Phase}
    {e : ServerEvent Peer} (he : e = .poll k ∨ e = .timeout k ∨ e = .send k false)
    (hstep : serverStep wire maxConcurrent printsAlike s e = some u)
    (hexchanges : u.exchanges = s.exchanges.set k { x with phase := phase })
    (hpermits : u.permits = if phase.holdsPermit then s.permits else s.permits + 1)
    (hcontrol : u.control.domains = s.control.domains) (hx : s.exchanges[k]? = some x)
    (h : phase.holdsPermit = true → u.exchanges[k]? = some { x with phase := phase } →
      CanEnd wire maxConcurrent printsAlike u k { x with phase := phase })
    (hend : phase.holdsPermit = false → ∃ outcome, phase = .finished outcome) :
    CanEnd wire maxConcurrent printsAlike s k x := by
  have hu : u.exchanges[k]? = some { x with phase := phase } := by
    rw [hexchanges, List.getElem?_set_self (List.getElem?_eq_some_iff.mp hx).1]
  cases hphase : phase.holdsPermit with
  | true =>
      rw [if_pos hphase] at hpermits
      obtain ⟨es, s', outcome, hes, hplay, hs', hperm, hdom⟩ := h hphase hu
      refine ⟨e :: es, s', outcome, ?_, by simp only [play, hstep, hplay], ?_, ?_, ?_⟩
      · intro e' he'
        rcases List.mem_cons.mp he' with rfl | he'
        · exact he
        · exact hes e' he'
      · rw [hs', hexchanges, List.set_set]
      · rw [hperm, hpermits]
      · rw [hdom, hcontrol]
  | false =>
      obtain ⟨outcome, rfl⟩ := hend hphase
      rw [hphase] at hpermits
      refine ⟨[e], u, outcome, ?_, by simp only [play, hstep], hexchanges, hpermits, hcontrol⟩
      intro e' he'
      rw [List.mem_singleton.mp he']
      exact he

theorem canEnd_of_packet {s : Server Peer} {k : ℕ} {x : Exchange Peer} {packet : List Byte}
    (hx : s.exchanges[k]? = some x)
    (hphase : x.phase = .sending packet ∨ x.phase = .timedOut packet) :
    CanEnd wire maxConcurrent printsAlike s k x := by
  have hstep : serverStep wire maxConcurrent printsAlike s (.send k false) =
      some (s.advance k x (.finished .sendFailed)) := by
    rcases hphase with hphase | hphase <;> simp [serverStep, sendStep, hx, hphase] <;> rfl
  exact .cons (.inr (.inr rfl)) hstep rfl rfl rfl hx (by rintro ⟨⟩) fun _ ↦ ⟨_, rfl⟩

theorem afterTimeout_cases (wire : Wire) (data : List Byte) :
    (∃ packet, afterTimeout wire data = .timedOut packet) ∨
      afterTimeout wire data = .finished .unanswerable := by
  unfold afterTimeout
  split
  · exact .inl ⟨_, rfl⟩
  · exact .inr rfl

theorem afterHandling_cases (wire : Wire) (data : List Byte) (result : Option Message) :
    (∃ packet, afterHandling wire data result = .sending packet) ∨
      afterHandling wire data result = .finished .unanswerable := by
  unfold afterHandling
  split
  · exact .inl ⟨_, rfl⟩
  · exact .inr rfl

theorem canEnd_of_running {s : Server Peer} {k n : ℕ} {x : Exchange Peer} {name : String}
    {response : Message} (hx : s.exchanges[k]? = some x)
    (hphase : x.phase = .running n name response) :
    CanEnd wire maxConcurrent printsAlike s k x := by
  have hstep : serverStep wire maxConcurrent printsAlike s (.timeout k) =
      some { s.advance k x (afterTimeout wire x.data) with
        orphans := s.orphans ++ orphansOf s x.phase } := by
    simp [serverStep, timeoutStep, hx, hphase]
  refine .cons (.inr (.inl rfl)) hstep rfl rfl rfl hx ?_ ?_
  · intro hold hu
    rcases afterTimeout_cases wire x.data with ⟨packet, heq⟩ | heq
    · exact canEnd_of_packet hu (.inr heq)
    · rw [heq] at hold
      cases hold
  · intro hold
    rcases afterTimeout_cases wire x.data with ⟨packet, heq⟩ | heq
    · rw [heq] at hold
      cases hold
    · exact ⟨_, heq⟩

theorem canEnd_of_immediate {s : Server Peer} {k : ℕ} {x : Exchange Peer}
    (result : Option Message) (hx : s.exchanges[k]? = some x)
    (hstep : serverStep wire maxConcurrent printsAlike s (.poll k) =
      some (s.advance k x (afterHandling wire x.data result))) :
    CanEnd wire maxConcurrent printsAlike s k x := by
  refine .cons (.inl rfl) hstep rfl rfl rfl hx ?_ ?_
  · intro hold hu
    rcases afterHandling_cases wire x.data result with ⟨packet, heq⟩ | heq
    · exact canEnd_of_packet hu (.inl heq)
    · rw [heq] at hold
      cases hold
  · intro hold
    rcases afterHandling_cases wire x.data result with ⟨packet, heq⟩ | heq
    · rw [heq] at hold
      cases hold
    · exact ⟨_, heq⟩

theorem canEnd_of_spawned {s : Server Peer} {k : ℕ} {x : Exchange Peer}
    (hx : s.exchanges[k]? = some x) (hphase : x.phase = .spawned) :
    CanEnd wire maxConcurrent printsAlike s k x := by
  cases hdispatch : dispatch wire x.data with
  | failed =>
      exact canEnd_of_immediate none hx
        (by simp [serverStep, pollStep, hx, hphase, hdispatch])
  | respond response =>
      exact canEnd_of_immediate (some response) hx
        (by simp [serverStep, pollStep, hx, hphase, hdispatch])
  | handleAaaa name response =>
      refine .cons (u := { s.advance k x (.running s.control.tasks.length name response) with
        control := { s.control with
          tasks := s.control.tasks ++ [⟨name, .findByDomain⟩] } }) (.inl rfl)
        (by simp [serverStep, pollStep, hx, hphase, hdispatch]) rfl rfl rfl hx
        (fun _ hu ↦ canEnd_of_running hu rfl) (by rintro ⟨⟩)

/-- In every state, each query in flight can be brought to its end, and its
permit back, by steps of the server alone: no answer from the database or from
upstream is needed, and no send has to succeed. -/
theorem permit_never_lost (wire : Wire) (maxConcurrent : ℕ) (printsAlike : Ipv6Addr → Bool)
    (s : Server Peer) (k : ℕ) (x : Exchange Peer) (hx : s.exchanges[k]? = some x)
    (hold : x.phase.holdsPermit = true) :
    ∃ es s' outcome, (∀ e ∈ es, e = .poll k ∨ e = .timeout k ∨ e = .send k false) ∧
      play (serverStep wire maxConcurrent printsAlike) s es = some s' ∧
      s'.exchanges = s.exchanges.set k { x with phase := .finished outcome } ∧
      s'.permits = s.permits + 1 ∧ s'.control.domains = s.control.domains := by
  cases hphase : x.phase with
  | shedding packet =>
      rw [hphase] at hold
      cases hold
  | spawned => exact canEnd_of_spawned hx hphase
  | running n name response => exact canEnd_of_running hx hphase
  | sending packet => exact canEnd_of_packet hx (.inl hphase)
  | timedOut packet => exact canEnd_of_packet hx (.inr hphase)
  | finished outcome =>
      rw [hphase] at hold
      cases hold

theorem permit_never_lost_demo :
    ∃ s es s', demoServer 6 = some s ∧ s.permits = 0 ∧
      play (serverStep demoWire 1 fun _ ↦ true) s es = some s' ∧ s'.permits = 1 := by
  have hrun : (demoServer 6).map (fun s ↦ (s.permits, s.exchanges[0]?)) =
      some (0, some ⟨[1], 10, .running 0 "A." (responseTo (demoRequest 1))⟩) := by
    decide +kernel
  obtain ⟨s, hs, hsome⟩ := Option.map_eq_some_iff.mp hrun
  obtain ⟨hpermits, hx⟩ := Prod.mk.inj hsome
  obtain ⟨es, s', -, -, hplay, -, hfree, -⟩ :=
    permit_never_lost demoWire 1 (fun _ ↦ true) s 0 _ hx rfl
  exact ⟨s, es, s', hs, hpermits, hplay, by rw [hfree, hpermits]⟩

end PrototypeNet
