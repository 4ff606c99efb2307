import PrototypeNet.Agent.Commands
import PrototypeNet.Lib.Runs

/-!
# Giving the DNS servers back

One backup file serves all starts.  As long as no start finds a backup that
has not been restored yet, the file and the settings together always determine
the original servers, and a stop that succeeds puts them back.  A start that
does find one overwrites it, and the original servers are lost.
-/

namespace PrototypeNet

open Fallible Runs

/-! ## What the file and the settings say together -/

namespace Machine

/-- No readable backup waits to be restored. -/
def NothingPending (m : Machine) : Prop :=
  ∀ b, m.backup = .saved b → (m.dns b.service).val = b.servers

/-- The original settings can be recovered: they are the current ones, except
that the service of a readable backup has the servers of the backup. -/
def Recovers (original : String → ServerList) (m : Machine) : Prop :=
  ∀ service, m.dns service = original service ∨
    ∃ b, m.backup = .saved b ∧ b.service = service

/-- A readable backup holds the original servers of its service. -/
def Faithful (original : String → ServerList) (m : Machine) : Prop :=
  ∀ b, m.backup = .saved b → b.servers = (original b.service).val

/-- The invariant of all runs. -/
def Sound (original : String → ServerList) (m : Machine) : Prop :=
  m.Recovers original ∧ m.Faithful original

end Machine

section Invariant

variable {original : String → ServerList} {m : Machine}

theorem sound_of_nothingPending (h : m.NothingPending) : m.Sound m.dns :=
  ⟨fun _ ↦ .inl rfl, fun b hb ↦ (h b hb).symm⟩

theorem dns_eq_of_nothingPending (hs : m.Sound original) (h : m.NothingPending) :
    m.dns = original := by
  funext service
  rcases hs.1 service with heq | ⟨b, hb, rfl⟩
  · exact heq
  · exact Subtype.ext ((h b hb).trans (hs.2 b hb))

theorem sound_of_dns_eq {m' : Machine} (hdns : m'.dns = original)
    (hf : m'.Faithful original) : m'.Sound original :=
  ⟨fun service ↦ .inl (congrFun hdns service), hf⟩

/-- `networksetup` undoes what `DNSServers` made of a setting. -/
theorem networksetupServers_restoreArgs (l : ServerList) :
    networksetupServers (restoreArgs l.val) = l := by
  obtain ⟨servers, hne⟩ := l
  cases servers with
  | nil => simp [restoreArgs, networksetupServers]
  | cons s rest => simp [restoreArgs, networksetupServers, hne]

theorem Machine.loadBackup_eq_ok {b : DNSBackup} (h : m.loadBackup = .ok b) :
    m.backup = .saved b := by
  unfold loadBackup at h
  split at h
  · cases h
  · cases h
  · cases h
    assumption

end Invariant

/-! ## The parts of the commands -/

section Parts

variable {P E : Machine → Prop}

theorem triple_failing (error : Option String) (hE : ∀ m, P m → E m) :
    Triple P (failing error) (fun _ ↦ P) E := by
  cases error with
  | none => exact .pure fun _ h ↦ h
  | some e => exact .throw hE

theorem triple_outcome {α : Type} (r : Except String α) (hE : ∀ m, P m → E m) :
    Triple P (outcome r) (fun _ ↦ P) E := by
  cases r with
  | ok a => exact .pure fun _ h ↦ h
  | error e => exact .throw hE

theorem triple_loadConfig (told : Except String String) (hE : ∀ m, P m → E m) :
    Triple P (loadConfig told) (fun _ ↦ P) E :=
  Triple.bind (Q := fun _ ↦ P) (.get fun _ h ↦ h) fun _ ↦ triple_outcome told hE

/-- A text in front of an error does not change the machine. -/
theorem triple_wrapErr {α : Type} {Q : α → Machine → Prop} {c : AgentM Machine α} (text : String)
    (h : Triple P c Q E) : Triple P (wrapErr text c) Q E :=
  h.tryCatch fun _ ↦ .throw fun _ hm ↦ hm

end Parts

section Commands

variable (original : String → ServerList)

/-- The machine while a start runs whose backup is written. -/
def Backed (service : String) (m : Machine) : Prop :=
  m.dns = original ∧ m.backup = .saved ⟨service, (original service).val⟩

variable {original}

theorem sound_of_backed {service : String} {m : Machine} (h : Backed original service m) :
    m.Sound original := by
  refine sound_of_dns_eq h.1 ?_
  intro b hb
  rw [h.2] at hb
  cases hb
  rfl

theorem sound_setDns_of_backed {service : String} {m : Machine} (h : Backed original service m)
    (servers : ServerList) :
    Machine.Sound original { m with dns := Function.update m.dns service servers } := by
  refine ⟨?_, (sound_of_backed h).2⟩
  intro other
  by_cases hother : other = service
  · exact .inr ⟨_, h.2, hother.symm⟩
  · left
    rw [← h.1]
    exact Function.update_of_ne hother _ _

/-- From the original settings, saving and setting keeps them recoverable. -/
theorem triple_backupAndSet (env : StartEnv (Except String String) Leftover) (dnsIP : String) :
    Triple (fun m : Machine ↦ m.dns = original ∧ m.Faithful original) (backupAndSet env dnsIP)
      (fun _ m ↦ m.Sound original) (fun m ↦ m.Sound original) := by
  have hsound : ∀ m : Machine, m.dns = original ∧ m.Faithful original → m.Sound original :=
    fun m h ↦ sound_of_dns_eq h.1 h.2
  refine (triple_wrapErr _ (triple_outcome _ hsound)).bind fun service ↦ ?_
  refine (triple_wrapErr _ (Q := fun servers m ↦ (m.dns = original ∧ m.Faithful original) ∧
    servers = (original service).val) ?_).bind fun servers ↦ ?_
  · refine (triple_failing _ hsound).bind fun _ ↦ ?_
    refine Triple.bind (Q := fun u m ↦ (m.dns = original ∧ m.Faithful original) ∧ u = m)
      (.get fun _ h ↦ ⟨h, rfl⟩) fun u ↦ .pure ?_
    rintro m ⟨h, rfl⟩
    exact ⟨h, by rw [Machine.agent_dns, h.1]⟩
  refine (triple_wrapErr _ (Q := fun _ m ↦ Backed original service m) ?_).bind fun _ ↦ ?_
  · cases hsave : env.save with
    | none =>
        refine .modify ?_
        rintro m ⟨h, rfl⟩
        exact ⟨h.1, rfl⟩
    | some failure =>
        obtain ⟨e, left⟩ := failure
        refine Triple.bind (Q := fun _ m ↦ m.Sound original) (.modify ?_)
          fun _ ↦ .throw fun _ h ↦ h
        rintro m ⟨h, rfl⟩
        refine sound_of_dns_eq h.1 ?_
        intro b hb
        -- The file is the old one, does not parse, or is the new one after all.
        cases left with
        | old => exact h.2 b hb
        | partly => cases hb
        | complete =>
            cases hb
            rfl
  refine (triple_wrapErr _ (Q := fun _ m ↦ m.Sound original) ?_).bind fun _ ↦ .pure fun _ h ↦ h
  exact (triple_failing _ fun _ h ↦ sound_of_backed h).bind fun _ ↦
    .modify fun _ h ↦ sound_setDns_of_backed h _

/-- Restoring gives the original settings back if it succeeds. -/
theorem triple_restore (env : RestoreEnv) :
    Triple (fun m : Machine ↦ m.Sound original) (restore env)
      (fun _ m ↦ m.Sound original ∧ m.dns = original) (fun m ↦ m.Sound original) := by
  refine (triple_wrapErr _ (Q := fun b m ↦ m.Sound original ∧ m.backup = .saved b) ?_).bind
    fun b ↦ ?_
  · refine (triple_failing _ fun _ h ↦ h).bind fun _ ↦ ?_
    refine Triple.bind (Q := fun u m ↦ m.Sound original ∧ u = m) (.get fun _ h ↦ ⟨h, rfl⟩)
      fun u ↦ ?_
    cases hfile : u.loadBackup with
    | error e =>
        rw [Machine.agent_backup, hfile]
        exact .throw fun _ h ↦ h.1
    | ok b =>
        rw [Machine.agent_backup, hfile]
        refine .pure ?_
        rintro m ⟨h, rfl⟩
        exact ⟨h, Machine.loadBackup_eq_ok hfile⟩
  refine (triple_wrapErr _ (Q := fun _ m ↦ m.Sound original ∧ m.dns = original) ?_).bind
    fun _ ↦ ?_
  · refine (triple_failing _ fun _ h ↦ h.1).bind fun _ ↦ .modify ?_
    rintro m ⟨h, hb⟩
    have hdns : Function.update m.dns b.service (networksetupServers (restoreArgs b.servers)) =
        original := by
      funext service
      by_cases hs : service = b.service
      · rw [hs, Function.update_self, h.2 b hb, networksetupServers_restoreArgs]
      · rw [Function.update_of_ne hs]
        rcases h.1 service with heq | ⟨b', hb', hservice⟩
        · exact heq
        · rw [hb] at hb'
          cases hb'
          exact absurd hservice.symm hs
    exact ⟨sound_of_dns_eq hdns h.2, hdns⟩
  · exact triple_wrapErr _ ((triple_failing _ fun _ h ↦ h.1).bind fun _ ↦ .modify fun m h ↦
        ⟨sound_of_dns_eq h.2 (fun b hb ↦ by cases hb), h.2⟩)

theorem triple_runStart (env : StartEnv (Except String String) Leftover) :
    Triple (fun m : Machine ↦ m.Sound original ∧ m.NothingPending) (runStart env)
      (fun _ m ↦ m.Sound original) (fun m ↦ m.Sound original) := by
  have hready : ∀ m : Machine, m.Sound original ∧ m.NothingPending →
      m.dns = original ∧ m.Faithful original :=
    fun m h ↦ ⟨dns_eq_of_nothingPending h.1 h.2, h.1.2⟩
  refine (triple_wrapErr _ (triple_loadConfig _ fun _ h ↦ h.1)).bind fun dnsIP ↦ ?_
  refine (triple_wrapErr _ (triple_outcome _ fun _ h ↦ h.1)).bind fun _ ↦ ?_
  refine (triple_wrapErr _ ((triple_backupAndSet env dnsIP).weaken hready (fun _ _ h ↦ h)
    fun _ h ↦ h)).bind fun _ ↦ ?_
  -- Only a wait that times out does anything more, and its restore may fail.
  have hkept : Triple (fun m : Machine ↦ m.Sound original)
      (tryCatch (restore env.restore) fun _ ↦ pure () : AgentM Machine Unit)
      (fun _ m ↦ m.Sound original) (fun m ↦ m.Sound original) := by
    refine Triple.tryCatch (F := fun m ↦ m.Sound original) ?_ fun _ ↦ .pure fun _ h ↦ h
    exact (triple_restore env.restore).weaken (fun _ h ↦ h) (fun _ _ h ↦ h.1) fun _ h ↦ h
  rcases awaitConnection_cases (σ := Machine) env with hwait | ⟨e, hwait⟩
  · rw [hwait]
    exact .pure fun _ h ↦ h
  · rw [hwait]
    exact hkept.bind fun _ ↦ .throw fun _ h ↦ h

theorem triple_runStop (env : StopEnv (Except String String)) :
    Triple (fun m : Machine ↦ m.Sound original) (runStop env)
      (fun _ m ↦ m.Sound original ∧ (env.statFails = false → m.dns = original))
      (fun m ↦ m.Sound original) := by
  refine (triple_wrapErr _ (triple_loadConfig _ fun _ h ↦ h)).bind fun _ ↦ ?_
  refine (triple_wrapErr _ (triple_outcome _ fun _ h ↦ h)).bind fun _ ↦ ?_
  refine Triple.bind (Q := fun found m ↦ m.Sound original ∧
    found = (!env.statFails && decide (m.backup ≠ .absent))) ?_ fun found ↦ ?_
  · refine Triple.bind (Q := fun u m ↦ m.Sound original ∧ u = m) (.get fun _ h ↦ ⟨h, rfl⟩)
      fun u ↦ .pure ?_
    rintro m ⟨h, rfl⟩
    exact ⟨h, rfl⟩
  cases found with
  | true =>
      refine triple_wrapErr _ ((triple_restore env.restore).weaken ?_ ?_ fun _ h ↦ h)
      · rintro m ⟨h, -⟩
        exact h
      · rintro _ m ⟨h, hdns⟩
        exact ⟨h, fun _ ↦ hdns⟩
  | false =>
      refine .pure ?_
      rintro m ⟨h, hfound⟩
      refine ⟨h, ?_⟩
      intro hstat
      apply dns_eq_of_nothingPending h
      intro b hb
      rw [hstat, hb] at hfound
      exact absurd hfound (by simp)

end Commands

/-! ## Runs -/

/-- A start must not find a backup that waits to be restored. -/
def Command.Safe (m : Machine) : Command → Prop
  | .start _ => m.NothingPending
  | .stop _ => True

theorem sound_step {original : String → ServerList} {m m' : Machine} {c : Command}
    (h : m.Sound original) (hsafe : c.Safe m) (hstep : m.step c = some m') :
    m'.Sound original := by
  cases hstep
  cases c with
  | start env => exact (triple_runStart env).state ⟨h, hsafe⟩
  | stop env =>
      exact ((triple_runStop env).weaken (fun _ h ↦ h) (fun _ _ h ↦ h.1) fun _ h ↦ h).state h

theorem sound_play {m m' : Machine} {cs : List Command} (h : m.NothingPending)
    (hsafe : Along Machine.step (fun m c ↦ c.Safe m) m cs)
    (hplay : play Machine.step m cs = some m') : m'.Sound m.dns :=
  play_invariant_along _ (Machine.Sound m.dns) (fun _ _ _ hs hc hstep ↦ sound_step hs hc hstep)
    (sound_of_nothingPending h) hsafe hplay

/-- If no start finds a backup that waits to be restored, every stop that
succeeds leaves all services with the servers they had at the beginning. -/
theorem stop_restores_dns (m m' m'' : Machine) (cs : List Command)
    (env : StopEnv (Except String String)) (hinit : m.NothingPending)
    (hsafe : Along Machine.step (fun m c ↦ c.Safe m) m cs)
    (hplay : play Machine.step m cs = some m') (hstat : env.statFails = false)
    (hstop : exec (runStop env) m' = (.ok (), m'')) : m''.dns = m.dns :=
  ((triple_runStop env).ok m' () m'' (sound_play hinit hsafe hplay) hstop).2 hstat

def quietRestore : RestoreEnv := ⟨none, none, none⟩

/-- A start with the VPN already connected and nothing going wrong. -/
def demoStart : Command :=
  .start ⟨.ok "fd00::53", .ok "Wi-Fi", .ok true, .ok "Wi-Fi", none, none, none, .ok true, [],
    quietRestore⟩

def demoStop : StopEnv (Except String String) :=
  ⟨.ok "fd00::53", .ok false, .ok false, [], false, quietRestore⟩

def demoMachine : Machine := ⟨"/Users/demo", fun _ ↦ ⟨["192.168.1.1"], by decide⟩, .absent⟩

theorem stop_restores_dns_demo :
    ∃ m', play Machine.step demoMachine [demoStart] = some m' ∧
      (m'.dns "Wi-Fi").val = ["fd00::53"] ∧
      (exec (runStop demoStop) m').2.dns = demoMachine.dns := by
  have hinit : demoMachine.NothingPending := by
    intro b hb
    cases hb
  refine ⟨_, rfl, by decide, ?_⟩
  exact stop_restores_dns demoMachine _ _ [demoStart] demoStop hinit ⟨hinit, trivial⟩ rfl rfl
    (Prod.ext (by decide) rfl)

/-- Two starts in a row: the second saves the proxy's own DNS server, and the
stop succeeds with that one. -/
theorem second_start_loses_dns :
    ∃ m', play Machine.step demoMachine [demoStart, demoStart] = some m' ∧
      (exec (runStop demoStop) m').1 = .ok () ∧
      ((exec (runStop demoStop) m').2.dns "Wi-Fi").val = ["fd00::53"] ∧
      (demoMachine.dns "Wi-Fi").val = ["192.168.1.1"] :=
  ⟨_, rfl, by decide, by decide, by decide⟩

end PrototypeNet
