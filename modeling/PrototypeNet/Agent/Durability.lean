import PrototypeNet.Agent.Files

/-!
# The agent's files over whole runs

Setups, starts and stops follow one another in any order, and every write may
break off.  Such a run on the files is a run on the backups they stand for, so
a stop that succeeds still gives the DNS servers back.  A start that succeeds
has read a configuration as a whole, the last one a setup has written.
-/

namespace PrototypeNet

open Fallible Runs

/-- Of a setup only the last part is here: what it does before does not touch
the two files. -/
inductive DiskCommand
  | setup (error : Option (String × Written)) (cfg : Config)
  | start (env : Disk.StartEnv)
  | stop (env : Disk.StopEnv)

def DiskCommand.run : DiskCommand → DiskM Unit
  | .setup error cfg => Disk.saveConfig error cfg
  | .start env => runStart env
  | .stop env => runStop env

def Disk.step (d : Disk) (c : DiskCommand) : Option Disk :=
  some (exec c.run d).2

/-- The command of the machine behind a command on the files. -/
def DiskCommand.behind (d : Disk) : DiskCommand → Option Command
  | .setup _ _ => none
  | .start env => some (.start (env.abs d))
  | .stop env => some (.stop (env.abs d))

/-- A start must not find a backup that waits to be restored. -/
def DiskCommand.Safe (d : Disk) : DiskCommand → Prop
  | .start _ => d.abs.NothingPending
  | _ => True

/-! ## Runs on the files are runs on the backups -/

/-- The configuration file after a setup. -/
def savedConfig (error : Option (String × Written)) (cfg : Config) (file : Option (List Char)) :
    Option (List Char) :=
  match error with
  | none => some cfg.text
  | some (_, left) => left.file cfg.text file

theorem exec_saveConfig (error : Option (String × Written)) (cfg : Config) (d : Disk) :
    (exec (Disk.saveConfig error cfg) d).2 =
      { d with config := savedConfig error cfg d.config } := by
  obtain _ | ⟨e, left⟩ := error
  · rw [Disk.saveConfig, exec_modify]
    rfl
  · rw [Disk.saveConfig, exec_bind_of_ok (exec_modify _ d), exec_throw]
    rfl

theorem step_behind (d : Disk) (c : DiskCommand) (d' : Disk) (hd : d.Intact)
    (h : d.step c = some d') :
    d'.Intact ∧ play Machine.step d.abs (c.behind d).toList = some d'.abs := by
  cases h
  cases c with
  | setup error cfg =>
      rw [DiskCommand.run, exec_saveConfig]
      exact ⟨hd, rfl⟩
  | start env =>
      obtain ⟨heq, hd'⟩ := Disk.sim_runStart env hd
      have habs : (exec (runStart (env.abs d)) d.abs).2 = (exec (runStart env) d).2.abs := by
        rw [heq]
      exact ⟨hd', congrArg some habs⟩
  | stop env =>
      obtain ⟨heq, hd'⟩ := Disk.sim_runStop env hd
      have habs : (exec (runStop (env.abs d)) d.abs).2 = (exec (runStop env) d).2.abs := by
        rw [heq]
      exact ⟨hd', congrArg some habs⟩

/-- A run on the files is a run on the backups they stand for, however the
writes break off: no part of a backup is ever read as a backup. -/
theorem files_refine_backups (d d' : Disk) (cs : List DiskCommand) (hd : d.Intact)
    (h : play Disk.step d cs = some d') :
    d'.Intact ∧ play Machine.step d.abs
      (project Disk.step (fun d c ↦ c.behind d) d cs) = some d'.abs :=
  play_project_of_invariant Disk.abs _ Disk.Intact step_behind hd h

def demoConfig : Config :=
  ⟨"203.0.113.7", "fd00::53", "laptop", "fd00:abcd::/32", "prototype-net", "Prototype CA"⟩

/-- A start that meets no error but, perhaps, in saving the backup. -/
def demoDiskStart (save : Option (String × Written)) : Disk.StartEnv where
  config := none
  service := .ok "Wi-Fi"
  connected := .ok true
  backupService := .ok "Wi-Fi"
  servers := none
  save := save
  set := none
  waitFirst := .ok true
  waitPolls := []
  restore := quietRestore

def demoDiskStop : Disk.StopEnv :=
  ⟨none, .ok false, .ok false, [], false, quietRestore⟩

def demoDisk : Disk := ⟨demoMachine.home, demoMachine.dns, none, none⟩

/-- The first start breaks off in the backup, the second one goes through. -/
def demoCommands : List DiskCommand :=
  [.setup none demoConfig, .start (demoDiskStart (some ("no space left on device", .cut 10))),
    .start (demoDiskStart none)]

theorem files_refine_backups_demo :
    ∃ d, play Disk.step demoDisk demoCommands = some d ∧
      (d.dns "Wi-Fi").val = ["fd00::53"] ∧
      play Machine.step demoDisk.abs (project Disk.step (fun d c ↦ c.behind d) demoDisk
        demoCommands) = some d.abs := by
  have hrun : (play Disk.step demoDisk demoCommands).map (fun d ↦ (d.dns "Wi-Fi").val) =
      some ["fd00::53"] := by
    decide +kernel
  obtain ⟨d, hd, hdns⟩ := Option.map_eq_some_iff.mp hrun
  exact ⟨d, hd, hdns, (files_refine_backups demoDisk d demoCommands (.inl rfl) hd).2⟩

/-! ## Giving the servers back -/

theorem nothingPending_of_absent {m : Machine} (h : m.backup = .absent) : m.NothingPending := by
  intro b hb
  rw [h] at hb
  cases hb

theorem nothingPending_of_unreadable {m : Machine} (h : m.backup = .unreadable) :
    m.NothingPending := by
  intro b hb
  rw [h] at hb
  cases hb

theorem sound_step_disk {original : String → ServerList} {d d' : Disk} {c : DiskCommand}
    (hd : d.Intact) (h : d.abs.Sound original) (hsafe : c.Safe d) (hstep : d.step c = some d') :
    d'.Intact ∧ d'.abs.Sound original := by
  obtain ⟨hd', hbehind⟩ := step_behind d c d' hd hstep
  refine ⟨hd', ?_⟩
  cases c with
  | setup error cfg =>
      have habs : d.abs = d'.abs := Option.some.inj hbehind
      rwa [← habs]
  | start env =>
      obtain ⟨u, hu, hend⟩ := play_cons hbehind
      cases hend
      exact sound_step (c := .start (env.abs d)) h hsafe hu
  | stop env =>
      obtain ⟨u, hu, hend⟩ := play_cons hbehind
      cases hend
      exact sound_step (c := .stop (env.abs d)) h trivial hu

/-- If no start finds a backup that waits to be restored, every stop that
succeeds leaves all services with the servers they had at the beginning,
although any of the files may have been written only in part before. -/
theorem stop_restores_dns_from_disk (d d' d'' : Disk) (cs : List DiskCommand)
    (env : Disk.StopEnv) (hd : d.Intact) (hinit : d.abs.NothingPending)
    (hsafe : Along Disk.step (fun d c ↦ c.Safe d) d cs)
    (hplay : play Disk.step d cs = some d') (hstat : env.statFails = false)
    (hstop : exec (runStop env) d' = (.ok (), d'')) : d''.dns = d.dns := by
  have hinv : d'.Intact ∧ d'.abs.Sound d.dns :=
    play_invariant_along _ (fun u ↦ u.Intact ∧ u.abs.Sound d.dns)
      (fun _ _ _ hu hc hstep ↦ sound_step_disk hu.1 hu.2 hc hstep)
      ⟨hd, sound_of_nothingPending hinit⟩ hsafe hplay
  have hrun := (Disk.sim_runStop env hinv.1).exec_eq
  rw [hstop] at hrun
  exact ((triple_runStop (env.abs d')).ok d'.abs () d''.abs hinv.2 hrun).2 hstat

theorem stop_restores_dns_from_disk_demo :
    ∃ d, play Disk.step demoDisk demoCommands = some d ∧
      (d.dns "Wi-Fi").val = ["fd00::53"] ∧
      (exec (runStop demoDiskStop) d).2.dns = demoDisk.dns := by
  have hrun : (play Disk.step demoDisk demoCommands).map (fun d ↦ ((d.dns "Wi-Fi").val,
      decide ((exec (runStop demoDiskStop) d).1 = .ok ()))) = some (["fd00::53"], true) := by
    decide +kernel
  obtain ⟨d, hd, hresult⟩ := Option.map_eq_some_iff.mp hrun
  obtain ⟨hdns, hok⟩ := Prod.mk.inj hresult
  have hsafe : Along Disk.step (fun d c ↦ c.Safe d) demoDisk demoCommands := by
    refine ⟨trivial, nothingPending_of_absent rfl, ?_, trivial⟩
    exact nothingPending_of_unreadable (by decide +kernel)
  have hstop : exec (runStop demoDiskStop) d =
      (.ok (), (exec (runStop demoDiskStop) d).2) :=
    Prod.ext (of_decide_eq_true hok) rfl
  exact ⟨d, hd, hdns, stop_restores_dns_from_disk demoDisk d _ demoCommands demoDiskStop
    (.inl rfl) (nothingPending_of_absent rfl) hsafe hd rfl hstop⟩

/-! ## The configuration a start has read -/

/-- Commands after which the configuration file is as it was. -/
def DiskCommand.LeavesConfig : DiskCommand → Prop
  | .setup error _ => ∃ e, error = some (e, .old)
  | _ => True

namespace Disk

/-- The program does not touch the configuration. -/
def KeepsConfig {α : Type} (a : DiskM α) : Prop :=
  ∀ config, Triple (fun d : Disk ↦ d.config = config) a (fun _ d ↦ d.config = config)
    (fun d ↦ d.config = config)

section Keeps

variable {α β : Type} {a : DiskM α}

theorem keeps_pure (v : α) : KeepsConfig (pure v) :=
  fun _ ↦ .pure fun _ h ↦ h

theorem keeps_throw (e : String) : KeepsConfig (throw e : DiskM α) :=
  fun _ ↦ .throw fun _ h ↦ h

theorem keeps_get : KeepsConfig (get : DiskM Disk) :=
  fun _ ↦ .get fun _ h ↦ h

theorem keeps_modify {f : Disk → Disk} (h : ∀ d, (f d).config = d.config) :
    KeepsConfig (modify f) :=
  fun _ ↦ .modify fun d hd ↦ (h d).trans hd

theorem KeepsConfig.bind {f : α → DiskM β} (h : KeepsConfig a) (hf : ∀ v, KeepsConfig (f v)) :
    KeepsConfig (a >>= f) :=
  fun config ↦ (h config).bind fun v ↦ hf v config

theorem KeepsConfig.tryCatch {f : String → DiskM α} (h : KeepsConfig a)
    (hf : ∀ e, KeepsConfig (f e)) : KeepsConfig (tryCatch a f) :=
  fun config ↦ (h config).tryCatch fun e ↦ hf e config

theorem KeepsConfig.wrapErr (h : KeepsConfig a) (text : String) :
    KeepsConfig (PrototypeNet.wrapErr text a) :=
  h.tryCatch fun _ ↦ keeps_throw _

theorem KeepsConfig.map (h : KeepsConfig a) (f : α → β) : KeepsConfig (f <$> a) := by
  rw [map_eq_pure_bind]
  exact h.bind fun v ↦ keeps_pure (f v)

theorem keeps_outcome (r : Except String α) : KeepsConfig (outcome r) := by
  cases r with
  | ok v => exact keeps_pure v
  | error e => exact keeps_throw e

theorem keeps_failing (error : Option String) : KeepsConfig (failing error) := by
  cases error with
  | none => exact keeps_pure ()
  | some e => exact keeps_throw e

theorem keeps_loadConfig (error : Option String) : KeepsConfig (loadConfig error) :=
  keeps_get.bind fun _ ↦ keeps_outcome _

theorem keeps_setDnsServers (service : String) (args : List String) :
    KeepsConfig (setDnsServers service args) :=
  keeps_modify fun _ ↦ rfl

theorem keeps_saveDNSBackup (error : Option (String × Written)) (b : DNSBackup) :
    KeepsConfig (saveDNSBackup error b) := by
  obtain _ | ⟨e, left⟩ := error
  · exact keeps_modify fun _ ↦ rfl
  · refine KeepsConfig.bind ?_ fun _ ↦ keeps_throw e
    exact keeps_modify fun _ ↦ rfl

theorem keeps_backupAndSet (env : StartEnv) (dnsIP : String) :
    KeepsConfig (backupAndSet env dnsIP) := by
  refine ((keeps_outcome _).wrapErr _).bind fun service ↦ ?_
  refine (KeepsConfig.wrapErr ?_ _).bind fun servers ↦ ?_
  · exact (keeps_failing _).bind fun _ ↦ keeps_get.bind fun _ ↦ keeps_pure _
  refine ((keeps_saveDNSBackup env.save _).wrapErr _).bind fun _ ↦ ?_
  refine (KeepsConfig.wrapErr ?_ _).bind fun _ ↦ keeps_pure service
  exact (keeps_failing _).bind fun _ ↦ keeps_setDnsServers service _

theorem keeps_restore (env : RestoreEnv) : KeepsConfig (restore env) := by
  refine (KeepsConfig.wrapErr ?_ _).bind fun b ↦ ?_
  · exact (keeps_failing _).bind fun _ ↦ keeps_get.bind fun _ ↦ keeps_outcome _
  refine (KeepsConfig.wrapErr ?_ _).bind fun _ ↦ KeepsConfig.wrapErr ?_ _
  · exact (keeps_failing _).bind fun _ ↦ keeps_setDnsServers _ _
  · exact (keeps_failing _).bind fun _ ↦ keeps_modify fun _ ↦ rfl

theorem keeps_runStart (env : StartEnv) : KeepsConfig (runStart env) := by
  refine ((keeps_loadConfig env.config).wrapErr _).bind fun dnsIP ↦ ?_
  refine ((keeps_outcome _).wrapErr _).bind fun _ ↦ ?_
  refine ((keeps_backupAndSet env dnsIP).wrapErr _).bind fun _ ↦ ?_
  rcases awaitConnection_cases (σ := Disk) env with hwait | ⟨e, hwait⟩
  · rw [hwait]
    exact keeps_pure ()
  · rw [hwait]
    exact ((keeps_restore env.restore).tryCatch fun _ ↦ keeps_pure ()).bind fun _ ↦ keeps_throw _

theorem keeps_runStop (env : StopEnv) : KeepsConfig (runStop env) := by
  refine ((keeps_loadConfig env.config).wrapErr _).bind fun _ ↦ ?_
  refine ((keeps_outcome _).wrapErr _).bind fun _ ↦ ?_
  refine KeepsConfig.bind (keeps_get.bind fun _ ↦ keeps_pure _) fun found ↦ ?_
  cases found with
  | true => exact (keeps_restore env.restore).wrapErr _
  | false => exact keeps_pure ()

theorem KeepsConfig.config_eq (h : KeepsConfig a) (d : Disk) : (exec a d).2.config = d.config :=
  (h d.config).state rfl

end Keeps

theorem failing_ok {error : Option String} {d d' : Disk} {u : Unit}
    (h : exec (failing error) d = (.ok u, d')) : d' = d := by
  cases error with
  | none =>
      cases h
      rfl
  | some e => cases h

theorem saveDNSBackup_ok {error : Option (String × Written)} {b : DNSBackup} {d d' : Disk}
    {u : Unit} (h : exec (saveDNSBackup error b) d = (.ok u, d')) :
    d' = { d with backup := some b.text } := by
  obtain _ | ⟨e, left⟩ := error
  · cases h
    exact writeBackup_none b d
  · cases h

theorem setDNS_ok {error : Option String} {service ip : String} {d d' : Disk} {u : Unit}
    (h : exec (setDNS error service ip) d = (.ok u, d')) :
    d' = { d with dns := Function.update d.dns service (networksetupServers [ip]) } := by
  obtain ⟨_, d₁, h₁, hset⟩ := exec_bind_eq_ok h
  obtain rfl := failing_ok h₁
  cases hset
  rfl

theorem backupAndSet_ok {env : StartEnv} {dnsIP service : String} {d d' : Disk}
    (h : exec (backupAndSet env dnsIP) d = (.ok service, d')) :
    env.backupService = .ok service ∧
      d' = { d with
        dns := Function.update d.dns service (networksetupServers [dnsIP])
        backup := some (DNSBackup.text ⟨service, (d.dns service).val⟩) } := by
  obtain ⟨service', d₁, h₁, hrest₁⟩ := exec_bind_eq_ok h
  obtain ⟨hservice, rfl⟩ := outcome_ok (exec_of_wrapErr_ok h₁)
  obtain ⟨servers, d₂, h₂, hrest₂⟩ := exec_bind_eq_ok hrest₁
  obtain ⟨rfl, rfl⟩ := dnsServers_ok (exec_of_wrapErr_ok h₂)
  obtain ⟨_, d₃, h₃, hrest₃⟩ := exec_bind_eq_ok hrest₂
  obtain rfl := saveDNSBackup_ok (exec_of_wrapErr_ok h₃)
  obtain ⟨_, d₄, h₄, hrest₄⟩ := exec_bind_eq_ok hrest₃
  obtain rfl := setDNS_ok (exec_of_wrapErr_ok h₄)
  cases hrest₄
  exact ⟨hservice, rfl⟩

/-- A start that succeeds has read a configuration and left its servers and the
backup. -/
theorem runStart_ok {env : StartEnv} {d d' : Disk}
    (h : exec (runStart env) d = (.ok (), d')) :
    ∃ cfg service, loadedConfig env.config d = .ok cfg ∧ env.backupService = .ok service ∧
      d' = { d with
        dns := Function.update d.dns service (networksetupServers [cfg.dnsIP])
        backup := some (DNSBackup.text ⟨service, (d.dns service).val⟩) } := by
  obtain ⟨dnsIP, d₁, h₁, hrest₁⟩ := exec_bind_eq_ok h
  have hconfig := exec_of_wrapErr_ok h₁
  rw [exec_loadConfig] at hconfig
  obtain ⟨hload, rfl⟩ := Prod.mk.inj hconfig
  obtain ⟨_, d₂, h₂, hrest₂⟩ := exec_bind_eq_ok hrest₁
  obtain ⟨-, rfl⟩ := outcome_ok (exec_of_wrapErr_ok h₂)
  obtain ⟨service, d₃, h₃, hrest₃⟩ := exec_bind_eq_ok hrest₂
  obtain ⟨hservice, hd₃⟩ := backupAndSet_ok (exec_of_wrapErr_ok h₃)
  have hend : d' = d₃ := by
    rcases awaitConnection_cases (σ := Disk) env with hwait | ⟨e, hwait⟩
    · rw [hwait] at hrest₃
      cases hrest₃
      rfl
    · -- The other ends of a start are errors.
      rw [hwait] at hrest₃
      obtain ⟨_, u, -, hfail⟩ := exec_bind_eq_ok hrest₃
      cases hfail
  cases hcfg : loadedConfig env.config d₂ with
  | error e =>
      rw [hcfg] at hload
      cases hload
  | ok cfg =>
      rw [hcfg] at hload
      cases hload
      refine ⟨cfg, service, rfl, hservice, ?_⟩
      rw [hend, hd₃]

theorem configOf_of_loadedConfig {error : Option String} {d : Disk} {cfg : Config}
    (h : loadedConfig error d = .ok cfg) : configOf d.home d.config = .ok cfg := by
  cases error with
  | none => exact h
  | some e => cases h

end Disk

/-- The configuration file holds the beginning, or all, of what the last setup
that wrote to it was to write. -/
def ConfigFrom (cs : List DiskCommand) (d : Disk) : Prop :=
  d.config = none ∨ ∃ before error cfg after n, cs = before ++ .setup error cfg :: after ∧
    (∀ c ∈ after, c.LeavesConfig) ∧ d.config = some (cfg.text.take n)

theorem configFrom_step {cs : List DiskCommand} {d d' : Disk} {c : DiskCommand}
    (h : ConfigFrom cs d) (hstep : d.step c = some d') : ConfigFrom (cs ++ [c]) d' := by
  cases hstep
  have hleaves (hc : c.LeavesConfig) (hkept : (exec c.run d).2.config = d.config) :
      ConfigFrom (cs ++ [c]) (exec c.run d).2 := by
    rcases h with hnone | ⟨before, error, cfg, after, n, rfl, hafter, hconfig⟩
    · exact .inl (hkept.trans hnone)
    · refine .inr ⟨before, error, cfg, after ++ [c], n, by simp, ?_, hkept.trans hconfig⟩
      intro c' hc'
      rcases List.mem_append.mp hc' with hc' | hc'
      · exact hafter c' hc'
      · rwa [List.mem_singleton.mp hc']
  cases c with
  | start env => exact hleaves trivial ((Disk.keeps_runStart env).config_eq d)
  | stop env => exact hleaves trivial ((Disk.keeps_runStop env).config_eq d)
  | setup error cfg =>
      have hsaved := congrArg Disk.config (exec_saveConfig error cfg d)
      have hnone : ∀ c ∈ ([] : List DiskCommand), c.LeavesConfig := by simp
      obtain _ | ⟨e, _ | n⟩ := error
      · refine .inr ⟨cs, none, cfg, [], cfg.text.length, rfl, hnone, ?_⟩
        rw [List.take_length]
        exact hsaved
      · exact hleaves ⟨e, rfl⟩ hsaved
      · exact .inr ⟨cs, some (e, .cut n), cfg, [], n, rfl, hnone, hsaved⟩

theorem configFrom_play {d d' : Disk} {cs : List DiskCommand} (hinit : d.config = none)
    (h : play Disk.step d cs = some d') : ConfigFrom cs d' := by
  induction cs using List.reverseRecOn generalizing d' with
  | nil =>
      cases h
      exact .inl hinit
  | append_singleton cs c ih =>
      obtain ⟨u, hu, hstep⟩ := play_concat h
      exact configFrom_step (ih hu) hstep

/-- A start that succeeds has pointed the active service to the DNS server of
the last setup that wrote the configuration, and that write was complete: half
a configuration is never used. -/
theorem start_uses_whole_config (d d' d'' : Disk) (cs : List DiskCommand) (env : Disk.StartEnv)
    (hinit : d.config = none) (hplay : play Disk.step d cs = some d')
    (hstart : exec (runStart env) d' = (.ok (), d'')) :
    ∃ before error cfg after service, cs = before ++ .setup error cfg :: after ∧
      (∀ c ∈ after, c.LeavesConfig) ∧ env.backupService = .ok service ∧
      d''.dns = Function.update d'.dns service (networksetupServers [cfg.dnsIP]) ∧
      d''.backup = some (DNSBackup.text ⟨service, (d'.dns service).val⟩) ∧
      d''.config = some cfg.text := by
  obtain ⟨cfg', service, hload, hservice, rfl⟩ := Disk.runStart_ok hstart
  have hread := Disk.configOf_of_loadedConfig hload
  rcases configFrom_play hinit hplay with hnone | ⟨before, error, cfg, after, n, hcs, hafter, hcfg⟩
  · rw [hnone] at hread
    cases hread
  · rw [hcfg, Disk.configOf] at hread
    by_cases hn : n < cfg.text.length
    · rw [readConfig_cut hn] at hread
      cases hread
    · rw [List.take_of_length_le (Nat.le_of_not_lt hn)] at hread hcfg
      rw [readConfig_text] at hread
      obtain rfl : cfg = cfg' := Except.ok.inj hread
      exact ⟨before, error, cfg, after, service, hcs, hafter, hservice, rfl, rfl, hcfg⟩

theorem start_uses_whole_config_demo :
    ∃ d d' before error cfg after, play Disk.step demoDisk demoCommands = some d ∧
      exec (runStart (demoDiskStart none)) d = (.ok (), d') ∧
      demoCommands = before ++ .setup error cfg :: after ∧
      d'.dns = Function.update d.dns "Wi-Fi" (networksetupServers [cfg.dnsIP]) := by
  have hrun : (play Disk.step demoDisk demoCommands).map (fun d ↦
      decide ((exec (runStart (demoDiskStart none)) d).1 = .ok ())) = some true := by
    decide +kernel
  obtain ⟨d, hd, hok⟩ := Option.map_eq_some_iff.mp hrun
  have hstart : exec (runStart (demoDiskStart none)) d =
      (.ok (), (exec (runStart (demoDiskStart none)) d).2) :=
    Prod.ext (of_decide_eq_true hok) rfl
  obtain ⟨before, error, cfg, after, service, hcs, -, hservice, hdns, -⟩ :=
    start_uses_whole_config demoDisk d _ demoCommands _ rfl hd hstart
  cases hservice
  exact ⟨d, _, before, error, cfg, after, hd, hstart, hcs, hdns⟩

end PrototypeNet
