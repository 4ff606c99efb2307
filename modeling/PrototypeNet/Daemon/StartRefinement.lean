import PrototypeNet.Control.Delivery
import PrototypeNet.Daemon.Startup

/-!
# The start within the control plane

The control plane knows the start of the daemon as a few steps.  Here it has all
its waits and writes, and beside it the DNS server goes on answering and
storing.  Every such run is a run of the control plane, so the invariants of the
control plane hold in every state of the start.
-/

namespace PrototypeNet

open ByteWords Fallible Runs

/-! ## A daemon that starts beside the DNS server -/

/-- The start as the control plane sees it. -/
def BootPhase.daemon : BootPhase → Daemon
  | .running _ (.inserting todo) => .loading todo
  | .running _ .serving => .running ⟨none, .idle⟩ .idle
  | .exited _ => .down
  | _ => .starting

/-- A fetch that succeeds sees the table as it is. -/
def BootEvent.seen (domains : Domains) : BootEvent → BootEvent
  | .fetch (.ok _) => .fetch (.ok domains)
  | e => e

structure Site where
  boot : Boot
  plane : State

inductive SiteEvent
  | boot (e : BootEvent)
  | query (name : String)
  | dns (n : ℕ) (e : DnsEvent)

namespace Site

/-- The process is started in `env`, whatever was there before. -/
def start (env : Environment) (plane : State) : Site :=
  ⟨.init env, { plane with natMap := .empty, daemon := .starting }⟩

def advance (s : Site) (b : Boot) : Site :=
  ⟨b, { s.plane with natMap := b.maps.natMap, daemon := b.phase.daemon }⟩

def step (build : Build) (host : Host) (s : Site) : SiteEvent → Option Site
  | .boot e => (bootStep build host s.boot (e.seen s.plane.domains)).map s.advance
  | .query name =>
      some { s with plane := { s.plane with tasks := s.plane.tasks ++ [⟨name, .findByDomain⟩] } }
  | .dns n e => (dnsStep s.plane n e).map fun plane ↦ { s with plane := plane }

/-- The step of the control plane behind a move of the daemon between phases. -/
def mainBehind (before after : BootPhase) : Option Event :=
  match after, before with
  | .exited _, _ => some (.main .exit)
  | _, .running _ .fetching => some (.main .select)
  | _, .running _ (.inserting (_ :: _)) => some (.main .load)
  | _, .running _ (.inserting []) => some (.main .spawn)
  | _, _ => none

def behind (build : Build) (host : Host) (s : Site) : SiteEvent → Option Event
  | .boot e => (bootStep build host s.boot (e.seen s.plane.domains)).bind fun b ↦
      mainBehind s.boot.phase b.phase
  | .query name => some (.query name)
  | .dns n e => some (.dns n e)

/-- The control plane sees the daemon as it is. -/
structure Mirrors (s : Site) : Prop where
  natMap : s.plane.natMap = s.boot.maps.natMap
  daemon : s.plane.daemon = s.boot.phase.daemon

end Site

/-! ## Steps -/

section Steps

variable {build : Build} {host : Host} {printsAlike : Ipv6Addr → Bool}

/-- Nobody listens for notifications before the daemon serves. -/
theorem BootPhase.notify_daemon (p : BootPhase) (i : BitVec 32) :
    p.daemon.notify i = p.daemon := by
  unfold BootPhase.daemon
  split <;> rfl

theorem DnsTransition.keeps_mirror {s s' : State} {n : ℕ} {t : Task} {e : DnsEvent} {p : BootPhase}
    (h : DnsTransition s n t e s') (hd : s.daemon = p.daemon) :
    s'.natMap = s.natMap ∧ s'.daemon = s.daemon := by
  cases h with
  | upserted hpc hins =>
      refine ⟨rfl, ?_⟩
      rw [State.commit, State.setPc, hd]
      exact p.notify_daemon _
  | hit hpc hrow => exact ⟨rfl, rfl⟩
  | found hpc => exact ⟨rfl, rfl⟩
  | allocated hpc hv => exact ⟨rfl, rfl⟩
  | silent hpc => exact ⟨rfl, rfl⟩

theorem Site.mirrors_advance (s : Site) (b : Boot) : (s.advance b).Mirrors :=
  ⟨rfl, rfl⟩

/-- The control plane does not see a step that keeps the map and the phase. -/
theorem Site.plane_advance {s : Site} (hs : s.Mirrors) {b : Boot}
    (hnat : b.maps.natMap = s.boot.maps.natMap) (hdaemon : b.phase.daemon = s.boot.phase.daemon) :
    some s.plane = some (s.advance b).plane := by
  rw [Site.advance, hnat, hdaemon, ← hs.natMap, ← hs.daemon]

theorem BootEvent.eq_of_seen {e : BootEvent} {d table : Domains}
    (h : e.seen d = .fetch (.ok table)) : table = d := by
  unfold BootEvent.seen at h
  split at h
  · cases h
    rfl
  · rename_i hne
    exact absurd h (hne table)

theorem Site.play_exit {s : Site} {b : Boot} {r : Except Stop Unit}
    (hnat : b.maps.natMap = s.plane.natMap) (hphase : b.phase = .exited r) :
    play (PrototypeNet.step printsAlike) s.plane (mainBehind s.boot.phase b.phase).toList =
      some (s.advance b).plane := by
  rw [Site.advance, hnat, hphase]
  rfl

/-- A move of the daemon between stages is at most one step of the control
plane. -/
theorem Site.play_move {s : Site} (hs : s.Mirrors) {e : BootEvent} {b : Boot} {t : Settings}
    {stage stage' : Stage} (hphase : s.boot.phase = .running t stage)
    (hphase' : b.phase = .running t stage')
    (hmove : StageMove build host t s.boot.maps s.boot.table stage (e.seen s.plane.domains) stage'
      b.maps b.table) :
    play (PrototypeNet.step printsAlike) s.plane (mainBehind s.boot.phase b.phase).toList =
      some (s.advance b).plane := by
  obtain ⟨⟨env, phase, maps, table⟩, plane⟩ := s
  obtain ⟨env', phase', maps', table'⟩ := b
  simp only at hphase hphase' hmove
  subst hphase hphase'
  have hnat : plane.natMap = maps.natMap := hs.natMap
  have hdaemon : plane.daemon = BootPhase.daemon (.running t stage) := hs.daemon
  generalize he : e.seen plane.domains = seen at hmove
  cases hmove with
  | registered => exact Site.plane_advance hs rfl rfl
  | found => exact Site.plane_advance hs rfl rfl
  | missing => exact Site.plane_advance hs rfl rfl
  | woken => exact Site.plane_advance hs rfl rfl
  | attached => exact Site.plane_advance hs rfl rfl
  | written hw =>
      have hsame : maps'.natMap = maps.natMap := natMap_apply hw
      exact Site.plane_advance hs hsame rfl
  | connected => exact Site.plane_advance hs rfl rfl
  | fetched table' =>
      obtain rfl := BootEvent.eq_of_seen he
      have hstep : PrototypeNet.step printsAlike plane (.main .select) =
          some { plane with daemon := .loading plane.domains.rows } := by
        simp only [PrototypeNet.step, mainStep, hdaemon, BootPhase.daemon]
      simp only [mainBehind, Option.toList_some, play, hstep]
      rw [Site.advance, ← hnat]
      rfl
  | @inserted row todo nat hrow =>
      have hins := insert_of_exec_insertRow hrow
      have hstep : PrototypeNet.step printsAlike plane (.main .load) =
          some { plane with natMap := nat, daemon := .loading todo } := by
        simp only [PrototypeNet.step, mainStep, hdaemon, BootPhase.daemon, State.write, hnat, hins,
          Option.map_some]
      simp only [mainBehind, Option.toList_some, play, hstep]
      rfl
  | filled =>
      have hstep : PrototypeNet.step printsAlike plane (.main .spawn) =
          some { plane with daemon := .running ⟨none, .idle⟩ .idle } := by
        simp only [PrototypeNet.step, mainStep, hdaemon, BootPhase.daemon]
      simp only [mainBehind, Option.toList_some, play, hstep]
      rw [Site.advance, ← hnat]
      rfl

/-- One step of the daemon is at most one step of the control plane. -/
theorem Site.play_advance {s : Site} (hs : s.Mirrors) {e : BootEvent} {b : Boot}
    (h : bootStep build host s.boot (e.seen s.plane.domains) = some b) :
    play (PrototypeNet.step printsAlike) s.plane (mainBehind s.boot.phase b.phase).toList =
      some (s.advance b).plane := by
  cases hphase : s.boot.phase with
  | exited r =>
      rw [bootStep_exited hphase] at h
      cases h
  | reading =>
      obtain ⟨hmaps, ⟨t, hrunning, -⟩ | ⟨r, hexited⟩⟩ := reading_moves hphase h
      · have hdaemon : b.phase.daemon = s.boot.phase.daemon := by
          rw [hrunning, hphase]
          rfl
        rw [← Site.plane_advance hs (congrArg Maps.natMap hmaps) hdaemon, hrunning]
        rfl
      · rw [← hphase]
        exact Site.play_exit (by rw [hmaps, hs.natMap]) hexited
  | running t stage =>
      rw [← hphase]
      rcases stage_moves hphase h with ⟨r, rfl⟩ | ⟨stage', hrunning, -, hmove⟩
      · exact Site.play_exit hs.natMap.symm rfl
      · exact Site.play_move hs hphase hrunning hmove

theorem Site.step_mirrors {s s' : Site} {e : SiteEvent} (hs : s.Mirrors)
    (h : s.step build host e = some s') :
    s'.Mirrors ∧ play (PrototypeNet.step printsAlike) s.plane (s.behind build host e).toList =
      some s'.plane := by
  cases e with
  | boot e =>
      obtain ⟨b, hb, rfl⟩ := Option.map_eq_some_iff.mp h
      refine ⟨s.mirrors_advance b, ?_⟩
      rw [Site.behind, hb, Option.bind_some]
      exact Site.play_advance hs hb
  | query name =>
      cases h
      exact ⟨⟨hs.natMap, hs.daemon⟩, rfl⟩
  | dns n e =>
      obtain ⟨plane, hplane, rfl⟩ := Option.map_eq_some_iff.mp h
      obtain ⟨t, -, ht⟩ := dnsStep_sound hplane
      obtain ⟨hnat, hdaemon⟩ := ht.keeps_mirror hs.daemon
      refine ⟨⟨hnat.trans hs.natMap, hdaemon.trans hs.daemon⟩, ?_⟩
      simp only [Site.behind, Option.toList_some, play, PrototypeNet.step, hplane]

theorem Site.mirrors_start (env : Environment) (plane : State) : (Site.start env plane).Mirrors :=
  ⟨rfl, rfl⟩

end Steps

/-! ## Runs -/

/-- Every run of a starting daemon beside the DNS server is a run of the control
plane that begins with its start. -/
theorem start_refines_control (build : Build) (host : Host) (printsAlike : Ipv6Addr → Bool)
    (env : Environment) (plane : State) (es : List SiteEvent) (site : Site)
    (hplay : play (Site.step build host) (.start env plane) es = some site) :
    site.Mirrors ∧ play (step printsAlike) plane
      (.main .start :: project (Site.step build host) (Site.behind build host)
        (.start env plane) es) = some site.plane :=
  play_project_of_invariant Site.plane (Site.behind build host) Site.Mirrors
    (fun _ _ _ hs hstep ↦ Site.step_mirrors hs hstep) (Site.mirrors_start env plane) hplay

/-- A row is stored between the loading of the programs and the fetch. -/
def demoSiteRun : List SiteEvent :=
  [.boot .read, .boot (.register none), .boot (.poll true), .boot (.attach none), .query "a",
    .boot .write, .dns 0 .findByDomain, .boot .write, .dns 0 (.lookupAaaa (.found demoOrigin)),
    .boot (.connect (.ok ())), .dns 0 .nextDomainId, .dns 0 .insertDomain,
    .boot (.fetch (.ok .empty)), .boot .insert, .boot (.register none)]

theorem play_demoSiteRun :
    ∃ site, play (Site.step .production demoHost) (.start demoEnvironment (.init 0))
      demoSiteRun = some site ∧ site.plane.natMap.get 1 = some ⟨demoOrigin⟩ := by
  have hrun : (play (Site.step .production demoHost) (.start demoEnvironment (.init 0))
      demoSiteRun).map (fun site ↦ site.plane.natMap.get 1) = some (some ⟨demoOrigin⟩) := by
    decide +kernel
  exact Option.map_eq_some_iff.mp hrun

theorem start_refines_control_demo :
    ∃ site : Site, site.plane.natMap.get 1 = some ⟨demoOrigin⟩ ∧ site.Mirrors ∧
      play (step fun _ ↦ true) (.init 0)
        (.main .start :: project (Site.step .production demoHost) (Site.behind .production demoHost)
          (.start demoEnvironment (.init 0)) demoSiteRun) = some site.plane := by
  obtain ⟨site, hplay, hget⟩ := play_demoSiteRun
  exact ⟨site, hget, start_refines_control .production demoHost (fun _ ↦ true) demoEnvironment
    (.init 0) demoSiteRun site hplay⟩

/-- A packet is sent out only to an address that a lookup for the domain of its
id has returned. -/
def Site.SendsToVouched (s : Site) : Prop :=
  ∀ d, LeavesAlone (tcIngress .production) ⟨d, s.boot.maps⟩ ∨
    ∃ f t pub d', Carries f t d ∧ HasPrefix syntheticPrefix t.dst ∧
      exec (tcIngress .production) ⟨d, s.boot.maps⟩ = (.ok .ok, ⟨d', s.boot.maps⟩) ∧
      Carries f pub d' ∧ s.plane.Vouches (domainIdFromIpv6 t.dst) pub.dst

theorem Site.sendsToVouched {s : Site} (hs : s.Mirrors) (h : s.plane.Sourced) :
    s.SendsToVouched := by
  intro d
  rcases tcIngress_sends s.boot.maps d with halone | ⟨f, t, pub, d', hc, hpre, hpub, hexec, hd'⟩
  · exact .inl halone
  · refine .inr ⟨f, t, pub, d', hc, hpre, hexec, hd', ?_⟩
    obtain ⟨key, a, o, -, ho, -, rfl⟩ := (s.boot.maps.publish_eq_some_iff _ pub).mp hpub
    obtain ⟨entry, hentry, rfl⟩ := Option.map_eq_some_iff.mp ho
    exact h.natMap _ _ (hs.natMap ▸ hentry)

/-- However far the daemon has come, after any run of the control plane and
whatever the DNS server does meanwhile, it delivers to no other domain. -/
theorem start_never_misdelivers (host : Host) (printsAlike : Ipv6Addr → Bool) (lastValue : ℕ)
    (before : List Event) (plane : State) (env : Environment) (es : List SiteEvent) (site : Site)
    (hbefore : play (step printsAlike) (.init lastValue) before = some plane)
    (hplay : play (Site.step .production host) (.start env plane) es = some site) :
    site.SendsToVouched := by
  have hsourced : plane.Sourced :=
    play_invariant State.Sourced (fun _ _ _ hs hstep ↦ step_sourced hs hstep)
      (sourced_init lastValue) hbefore
  have hstart : step printsAlike plane (.main .start) = some (Site.start env plane).plane := rfl
  have hrun : site.Mirrors ∧ play (step printsAlike) (Site.start env plane).plane
      (project (Site.step .production host) (Site.behind .production host) (.start env plane) es) =
        some site.plane :=
    play_project_of_invariant Site.plane (Site.behind .production host) Site.Mirrors
      (fun _ _ _ hs hstep ↦ Site.step_mirrors hs hstep) (Site.mirrors_start env plane) hplay
  exact Site.sendsToVouched hrun.1
    (play_invariant State.Sourced (fun _ _ _ hs hstep ↦ step_sourced hs hstep)
      (step_sourced hsourced hstart) hrun.2)

theorem start_never_misdelivers_demo :
    ∃ site, play (Site.step .production demoHost) (.start demoEnvironment (.init 0))
      demoSiteRun = some site ∧ site.SendsToVouched := by
  obtain ⟨site, hplay, -⟩ := play_demoSiteRun
  exact ⟨site, hplay, start_never_misdelivers demoHost (fun _ ↦ true) 0 [] (.init 0)
    demoEnvironment demoSiteRun site rfl hplay⟩

end PrototypeNet
