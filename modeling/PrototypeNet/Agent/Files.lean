import PrototypeNet.Lib.JsonRoundTrip
import PrototypeNet.Agent.Restore

/-!
# The files of the agent

The configuration and the DNS backup are JSON files, written in place: a write
that fails leaves the old file or a part of the new one.  Here the commands
work on the texts of the files.  A part of a backup is never taken for a
backup, so the commands do to the files what they do to the backup that is
read from them, and what holds of the latter holds down to the texts.
-/

namespace PrototypeNet

open Fallible Runs Json

/-! ## The texts -/

structure Config where
  serverIP : String
  dnsIP : String
  clientID : String
  syntheticPrefix : String
  profileName : String
  caIssuerCN : String
  deriving DecidableEq, Repr

def strValue (s : String) : Value :=
  .str s.toList

def Config.toJson (c : Config) : Value :=
  .obj [("server_ip".toList, strValue c.serverIP), ("dns_ip".toList, strValue c.dnsIP),
    ("client_id".toList, strValue c.clientID),
    ("synthetic_prefix".toList, strValue c.syntheticPrefix),
    ("profile_name".toList, strValue c.profileName),
    ("ca_issuer_cn".toList, strValue c.caIssuerCN)]

def configFields : List (RecordField Config) :=
  [.str "server_ip".toList fun s c ↦ { c with serverIP := String.ofList s },
    .str "dns_ip".toList fun s c ↦ { c with dnsIP := String.ofList s },
    .str "client_id".toList fun s c ↦ { c with clientID := String.ofList s },
    .str "synthetic_prefix".toList fun s c ↦ { c with syntheticPrefix := String.ofList s },
    .str "profile_name".toList fun s c ↦ { c with profileName := String.ofList s },
    .str "ca_issuer_cn".toList fun s c ↦ { c with caIssuerCN := String.ofList s }]

/-- No servers are the nil slice, which is printed as null. -/
def DNSBackup.toJson (b : DNSBackup) : Value :=
  .obj [("service".toList, strValue b.service),
    ("servers".toList, if b.servers = [] then .null else .arr (b.servers.map strValue))]

def backupFields : List (RecordField DNSBackup) :=
  [.str "service".toList fun s b ↦ { b with service := String.ofList s },
    .strs "servers".toList fun l b ↦ { b with servers := l.map String.ofList }]

def marshalIndent (v : Value) : List Char :=
  print 0 v

def Config.text (c : Config) : List Char :=
  marshalIndent c.toJson

def DNSBackup.text (b : DNSBackup) : List Char :=
  marshalIndent b.toJson

def readConfig (text : List Char) : Except UnmarshalError Config :=
  unmarshal configFields ⟨"", "", "", "", "", ""⟩ text

def readBackup (text : List Char) : Except UnmarshalError DNSBackup :=
  unmarshal backupFields ⟨"", []⟩ text

/-- The beginning of the message. -/
def errorText : UnmarshalError → String
  | .malformed .unexpectedEnd => "unexpected end of JSON input"
  | .malformed .invalidCharacter => "invalid character"
  | .typeMismatch => "json: cannot unmarshal"

/-! ## What is read from what was written -/

theorem printable_config (c : Config) : Printable 1 c.toJson := by
  refine .obj ?_
  simp [strValue, Printable.str]

theorem readConfig_text (c : Config) : readConfig c.text = .ok c := by
  have hparse : parse c.text = .ok c.toJson :=
    parse_print (printable_config c) (by decide) 0
  rw [readConfig, unmarshal, hparse]
  simp [Config.toJson, storeValue, storeField, configFields, matchField, RecordField.str, strValue]

theorem printable_backup (b : DNSBackup) : Printable 2 b.toJson := by
  refine .obj ?_
  intro f hf
  rcases List.mem_cons.mp hf with rfl | hf
  · exact .str _ _
  · rw [List.mem_singleton.mp hf]
    dsimp only
    split
    · exact .null _
    · refine .arr fun v hv ↦ ?_
      obtain ⟨s, -, rfl⟩ := List.mem_map.mp hv
      exact .str _ _

theorem mapM_elemText (servers : List String) :
    servers.mapM (elemText ∘ strValue) = some (servers.map String.toList) := by
  induction servers with
  | nil => rfl
  | cons s servers ih =>
      rw [List.mapM_cons, ih]
      rfl

theorem readBackup_text (b : DNSBackup) : readBackup b.text = .ok b := by
  have hparse : parse b.text = .ok b.toJson :=
    parse_print (printable_backup b) (by decide) 0
  rw [readBackup, unmarshal, hparse]
  obtain ⟨service, servers⟩ := b
  by_cases hnil : servers = []
  · simp [DNSBackup.toJson, storeValue, storeField, backupFields, matchField, RecordField.str,
      RecordField.strs, strValue, hnil]
  · have hservice : strValue service = .str service.toList := rfl
    simp [DNSBackup.toJson, storeValue, storeField, backupFields, matchField, RecordField.str,
      RecordField.strs, hservice, hnil, mapM_elemText]

/-- A part of a configuration is never taken for a configuration. -/
theorem readConfig_cut {c : Config} {n : ℕ} (h : n < c.text.length) :
    readConfig (c.text.take n) = .error (.malformed .unexpectedEnd) := by
  have hparse : parse (c.text.take n) = .error .unexpectedEnd :=
    parse_take_print (printable_config c) (by decide) 0 h
  rw [readConfig, unmarshal, hparse]

/-- A part of a backup is never taken for a backup. -/
theorem readBackup_cut {b : DNSBackup} {n : ℕ} (h : n < b.text.length) :
    readBackup (b.text.take n) = .error (.malformed .unexpectedEnd) := by
  have hparse : parse (b.text.take n) = .error .unexpectedEnd :=
    parse_take_print (printable_backup b) (by decide) 0 h
  rw [readBackup, unmarshal, hparse]

/-! ## The commands on the files -/

/-- The machine with the contents of its two files. -/
structure Disk where
  home : String
  dns : String → ServerList
  config : Option (List Char)
  backup : Option (List Char)

abbrev DiskM := AgentM Disk

/-- What a write that failed has left: the old file, or the first characters of
the new one. -/
inductive Written
  | old
  | cut (n : ℕ)
  deriving DecidableEq, Repr

def Written.file (new : List Char) (file : Option (List Char)) : Written → Option (List Char)
  | .old => file
  | .cut n => some (new.take n)

namespace Disk

def saveConfig (error : Option (String × Written)) (cfg : Config) : DiskM Unit :=
  match error with
  | none => modify fun d ↦ { d with config := some cfg.text }
  | some (e, left) => do
      modify fun d ↦ { d with config := left.file cfg.text d.config }
      throw e

/-- `LoadConfig` on the content of the file. -/
def configOf (home : String) (file : Option (List Char)) : Except String Config :=
  match file with
  | none =>
      .error ("reading config (did you run 'setup' first?): " ++
        notFound (statePath home "config.json"))
  | some text => (readConfig text).mapError fun e ↦ "parsing config: " ++ errorText e

/-- `LoadConfig`, with the error it meets on the way to the file. -/
def loadedConfig (error : Option String) (d : Disk) : Except String Config :=
  match error with
  | some e => .error e
  | none => configOf d.home d.config

def writeBackup (b : DNSBackup) (left : Option Written) (d : Disk) : Disk :=
  { d with backup := (left.getD (.cut b.text.length)).file b.text d.backup }

/-- `LoadDNSBackup` on the content of the file. -/
def backupOf (home : String) (file : Option (List Char)) : Except String DNSBackup :=
  match file with
  | none => .error ("reading DNS backup: " ++ notFound (statePath home "dns-backup.json"))
  | some text => (readBackup text).mapError fun e ↦ "parsing DNS backup: " ++ errorText e

end Disk

/-- The commands are told of errors on the way to the configuration file; the
rest is read from it. -/
instance : AgentState Disk (Option String) Written where
  dnsIP error d := (d.loadedConfig error).map Config.dnsIP
  dns := Disk.dns
  setDns dns d := { d with dns := dns }
  writeBackup := Disk.writeBackup
  backup d := Disk.backupOf d.home d.backup
  hasBackup d := d.backup.isSome
  removeBackup d := { d with backup := none }

namespace Disk

abbrev StartEnv := PrototypeNet.StartEnv (Option String) Written

abbrev StopEnv := PrototypeNet.StopEnv (Option String)

/-! ## What the files stand for -/

def fileOf : Option (List Char) → BackupFile
  | none => .absent
  | some text =>
      match readBackup text with
      | .ok b => .saved b
      | .error _ => .unreadable

def abs (d : Disk) : Machine :=
  ⟨d.home, d.dns, fileOf d.backup⟩

/-- Nobody but the agent has written the backup file. -/
def Intact (d : Disk) : Prop :=
  d.backup = none ∨ ∃ (b : DNSBackup) (n : ℕ), d.backup = some (b.text.take n)

end Disk

def Written.abs (new : List Char) : Written → Leftover
  | .old => .old
  | .cut n => if n < new.length then .partly else .complete

namespace Disk

theorem fileOf_text (b : DNSBackup) : fileOf (some b.text) = .saved b := by
  simp only [fileOf, readBackup_text]

theorem fileOf_cut {b : DNSBackup} {n : ℕ} (h : n < b.text.length) :
    fileOf (some (b.text.take n)) = .unreadable := by
  simp only [fileOf, readBackup_cut h]

theorem fileOf_written (b : DNSBackup) (file : Option (List Char)) (left : Written) :
    fileOf (left.file b.text file) = (left.abs b.text).file b (fileOf file) := by
  cases left with
  | old => rfl
  | cut n =>
      by_cases hn : n < b.text.length
      · simp only [Written.file, Written.abs, if_pos hn, fileOf_cut hn, Leftover.file]
      · simp only [Written.file, Written.abs, if_neg hn, Leftover.file]
        rw [List.take_of_length_le (Nat.le_of_not_lt hn), fileOf_text]

/-! ## The commands on both levels -/

abbrev Sim {α : Type} (d : Disk) (a : DiskM α) (b : AgentM Machine α) : Prop :=
  Simulates abs Intact d a b

section Parts

variable {α : Type} {d : Disk}

theorem sim_wrapErr {a : DiskM α} {b : AgentM Machine α} (text : String) (h : Sim d a b) :
    Sim d (wrapErr text a) (wrapErr text b) :=
  h.tryCatch fun _ _ _ hd ↦ .throw _ hd

theorem sim_outcome (r : Except String α) (hd : d.Intact) : Sim d (outcome r) (outcome r) :=
  .of_exec (exec_outcome r d) (exec_outcome r d.abs) hd

theorem sim_failing (error : Option String) (hd : d.Intact) :
    Sim d (failing error) (failing error) := by
  cases error with
  | none => exact .pure () hd
  | some e => exact .throw e hd

theorem sim_setDnsServers (service : String) (args : List String) (hd : d.Intact) :
    Sim d (setDnsServers service args) (setDnsServers service args) :=
  .of_exec (exec_modify _ d) (exec_modify _ d.abs) hd

theorem sim_dnsServers (error : Option String) (service : String) (hd : d.Intact) :
    Sim d (dnsServers error service) (dnsServers error service) :=
  (sim_failing error hd).bind fun _ _ _ hd' ↦ .of_exec rfl rfl hd'

theorem sim_setDNS (error : Option String) (service ip : String) (hd : d.Intact) :
    Sim d (setDNS error service ip) (setDNS error service ip) :=
  (sim_failing error hd).bind fun _ _ _ hd' ↦ sim_setDnsServers service [ip] hd'

theorem sim_restoreDNS (error : Option String) (service : String) (servers : List String)
    (hd : d.Intact) :
    Sim d (restoreDNS error service servers) (restoreDNS error service servers) :=
  (sim_failing error hd).bind fun _ _ _ hd' ↦ sim_setDnsServers service _ hd'

theorem writeBackup_none (b : DNSBackup) (d : Disk) :
    d.writeBackup b none = { d with backup := some b.text } := by
  rw [writeBackup, Option.getD_none, Written.file, List.take_length]

theorem abs_writeBackup (b : DNSBackup) (left : Option Written) (d : Disk) :
    (d.writeBackup b left).abs = d.abs.writeBackup b (left.map (Written.abs b.text)) := by
  cases left with
  | none =>
      rw [writeBackup_none, abs, fileOf_text]
      rfl
  | some left => simp only [abs, writeBackup, Option.getD_some, fileOf_written, Option.map_some,
      Machine.writeBackup]

theorem intact_writeBackup (hd : d.Intact) (b : DNSBackup) (left : Option Written) :
    (d.writeBackup b left).Intact := by
  rcases left with _ | _ | n
  · exact .inr ⟨b, _, rfl⟩
  · exact hd
  · exact .inr ⟨b, n, rfl⟩

theorem sim_saveDNSBackup (error : Option (String × Written)) (b : DNSBackup)
    (hd : d.Intact) :
    Sim d (saveDNSBackup error b)
      (saveDNSBackup (error.map fun e ↦ (e.1, e.2.abs b.text)) b) := by
  obtain _ | ⟨e, left⟩ := error
  · refine .of_exec (exec_modify _ d) ?_ (intact_writeBackup hd b none)
    rw [Option.map_none, saveDNSBackup, exec_modify]
    exact Prod.ext rfl (abs_writeBackup b none d).symm
  · have hwrite : exec (saveDNSBackup (some (e, left)) b) d =
        (.error e, d.writeBackup b (some left)) := exec_bind_of_ok (exec_modify _ d)
    refine .of_exec hwrite ?_ (intact_writeBackup hd b (some left))
    rw [Option.map_some, saveDNSBackup, exec_bind_of_ok (exec_modify _ d.abs), exec_throw]
    exact Prod.ext rfl (abs_writeBackup b (some left) d).symm

/-- On a file the agent has written, the message for a cut backup is the one of
the machine. -/
theorem loadBackup_abs (hd : d.Intact) : d.abs.loadBackup = backupOf d.home d.backup := by
  obtain ⟨home, dns, config, backup⟩ := d
  rcases hd with hnone | ⟨b, n, hsome⟩
  · simp only at hnone
    subst hnone
    rfl
  · simp only at hsome
    subst hsome
    by_cases hn : n < b.text.length
    · simp only [Machine.loadBackup, abs, fileOf_cut hn, backupOf, readBackup_cut hn]
      rfl
    · rw [List.take_of_length_le (Nat.le_of_not_lt hn)]
      simp only [Machine.loadBackup, abs, fileOf_text, backupOf, readBackup_text]
      rfl

theorem sim_loadDNSBackup (error : Option String) (hd : d.Intact) :
    Sim d (loadDNSBackup error) (loadDNSBackup error) := by
  refine (sim_failing error hd).bind fun _ d' _ hd' ↦ ?_
  refine .of_exec (exec_outcome (backupOf d'.home d'.backup) d') ?_ hd'
  rw [← loadBackup_abs hd']
  exact exec_outcome d'.abs.loadBackup d'.abs

theorem fileOf_ne_absent_iff (file : Option (List Char)) :
    fileOf file ≠ .absent ↔ file.isSome = true := by
  cases file with
  | none => simp [fileOf]
  | some text =>
      simp only [fileOf, Option.isSome_some, iff_true]
      split <;> nofun

theorem sim_dnsBackupExists (statFails : Bool) (hd : d.Intact) :
    Sim d (dnsBackupExists statFails) (dnsBackupExists statFails) := by
  refine .of_exec (r := .ok (!statFails && d.backup.isSome)) rfl ?_ hd
  have hexists : decide (fileOf d.backup ≠ .absent) = d.backup.isSome := by
    simp [fileOf_ne_absent_iff]
  have hexec : exec (dnsBackupExists statFails) d.abs =
      (.ok (!statFails && decide (fileOf d.backup ≠ .absent)), d.abs) := rfl
  rw [hexec, hexists]

theorem sim_removeDNSBackup (error : Option String) (hd : d.Intact) :
    Sim d (removeDNSBackup error) (removeDNSBackup error) :=
  (sim_failing error hd).bind fun _ d' _ _ ↦
    .of_exec (exec_modify _ d') (exec_modify _ d'.abs) (.inl rfl)

theorem sim_restore (env : RestoreEnv) (hd : d.Intact) : Sim d (restore env) (restore env) := by
  refine (sim_wrapErr _ (sim_loadDNSBackup env.load hd)).bind fun b _ _ hd₁ ↦ ?_
  refine (sim_wrapErr _ (sim_restoreDNS env.set b.service b.servers hd₁)).bind fun _ _ _ hd₂ ↦ ?_
  exact sim_wrapErr _ (sim_removeDNSBackup env.remove hd₂)

end Parts

/-- The backup a start would save. -/
def backupFor (env : StartEnv) (d : Disk) : DNSBackup :=
  let service := env.backupService.toOption.getD ""
  ⟨service, (d.dns service).val⟩

def StartEnv.abs (env : StartEnv) (d : Disk) :
    PrototypeNet.StartEnv (Except String String) Leftover where
  config := (d.loadedConfig env.config).map Config.dnsIP
  service := env.service
  connected := env.connected
  backupService := env.backupService
  servers := env.servers
  save := env.save.map fun e ↦ (e.1, e.2.abs (backupFor env d).text)
  set := env.set
  waitFirst := env.waitFirst
  waitPolls := env.waitPolls
  restore := env.restore

def StopEnv.abs (env : StopEnv) (d : Disk) : PrototypeNet.StopEnv (Except String String) where
  config := (d.loadedConfig env.config).map Config.dnsIP
  connected := env.connected
  waitFirst := env.waitFirst
  waitPolls := env.waitPolls
  statFails := env.statFails
  restore := env.restore

theorem exec_loadConfig (error : Option String) (d : Disk) :
    exec (loadConfig error) d = ((d.loadedConfig error).map Config.dnsIP, d) :=
  exec_outcome _ d

theorem sim_loadConfig (error : Option String) {d : Disk} (hd : d.Intact) :
    Sim d (loadConfig error) (loadConfig ((d.loadedConfig error).map Config.dnsIP)) :=
  .of_exec (exec_loadConfig error d) (exec_outcome _ d.abs) hd

/-- A statement that went through has gone through without the text for its
error. -/
theorem exec_of_wrapErr_ok {α : Type} {text : String} {a : DiskM α} {d d' : Disk} {v : α}
    (h : exec (wrapErr text a) d = (.ok v, d')) : exec a d = (.ok v, d') := by
  rcases exec_cases a d with ⟨w, t, hexec⟩ | ⟨e, t, hexec⟩
  · rw [wrapErr, exec_tryCatch_of_ok hexec] at h
    rw [hexec, h]
  · rw [wrapErr, exec_tryCatch_of_error hexec] at h
    cases h

theorem outcome_ok {α : Type} {r : Except String α} {d d' : Disk} {v : α}
    (h : exec (outcome r) d = (.ok v, d')) : r = .ok v ∧ d' = d := by
  obtain ⟨hr, hd⟩ := Prod.mk.inj ((exec_outcome r d).symm.trans h)
  exact ⟨hr, hd.symm⟩

theorem dnsServers_ok {error : Option String} {service : String} {d d' : Disk}
    {servers : List String} (h : exec (dnsServers error service) d = (.ok servers, d')) :
    servers = (d.dns service).val ∧ d' = d := by
  cases error with
  | none =>
      cases h
      exact ⟨rfl, rfl⟩
  | some e => cases h

theorem sim_backupAndSet (env : StartEnv) (dnsIP : String) {d : Disk} (hd : d.Intact) :
    Sim d (backupAndSet env dnsIP) (backupAndSet (env.abs d) dnsIP) := by
  refine (sim_wrapErr _ (sim_outcome env.backupService hd)).bind fun service d₁ h₁ hd₁ ↦ ?_
  obtain ⟨hservice, rfl⟩ := outcome_ok (exec_of_wrapErr_ok h₁)
  refine (sim_wrapErr _ (sim_dnsServers env.servers service hd₁)).bind fun servers d₂ h₂ hd₂ ↦ ?_
  obtain ⟨rfl, rfl⟩ := dnsServers_ok (exec_of_wrapErr_ok h₂)
  have hbackup : backupFor env d₂ = ⟨service, (d₂.dns service).val⟩ := by
    rw [backupFor, hservice]
    rfl
  have hsave := sim_saveDNSBackup env.save (backupFor env d₂) hd₂
  rw [hbackup] at hsave
  have habs : (env.abs d₂).save =
      env.save.map fun e ↦ (e.1, e.2.abs (DNSBackup.text ⟨service, (d₂.dns service).val⟩)) := by
    rw [← hbackup]
    rfl
  rw [habs]
  refine (sim_wrapErr _ hsave).bind fun _ d₃ _ hd₃ ↦ ?_
  refine (sim_wrapErr _ (sim_setDNS env.set service dnsIP hd₃)).bind fun _ _ _ hd₄ ↦ ?_
  exact .pure service hd₄

theorem sim_awaitConnection (env : StartEnv) (d : Disk) {d' : Disk} (hd' : d'.Intact) :
    Sim d' (awaitConnection env) (awaitConnection (env.abs d)) := by
  have hgiveUp (e : String) := ((sim_restore env.restore hd').tryCatch
    fun _ _ _ hd₁ ↦ Simulates.pure () hd₁).bind fun _ _ _ hd₁ ↦
      Simulates.throw (α := Unit) ("waiting for VPN: " ++ e) hd₁
  simp only [StartEnv.abs, awaitConnection]
  rcases env.connected with e | _ | _
  all_goals
    cases waitForConnection env.waitFirst env.waitPolls
  · exact hgiveUp _
  · exact .pure () hd'
  · exact hgiveUp _
  · exact .pure () hd'
  · exact .pure () hd'
  · exact .pure () hd'

theorem sim_runStart (env : StartEnv) {d : Disk} (hd : d.Intact) :
    Sim d (runStart env) (runStart (env.abs d)) := by
  refine (sim_wrapErr _ (sim_loadConfig env.config hd)).bind fun dnsIP d₁ h₁ hd₁ ↦ ?_
  have hstate₁ := exec_of_wrapErr_ok h₁
  rw [exec_loadConfig] at hstate₁
  obtain ⟨-, rfl⟩ := Prod.mk.inj hstate₁
  refine (sim_wrapErr _ (sim_outcome env.service hd₁)).bind fun _ d₂ h₂ hd₂ ↦ ?_
  obtain ⟨-, rfl⟩ := outcome_ok (exec_of_wrapErr_ok h₂)
  refine (sim_wrapErr _ (sim_backupAndSet env dnsIP hd₂)).bind fun _ d₃ _ hd₃ ↦ ?_
  exact sim_awaitConnection env _ hd₃

theorem sim_runStop (env : StopEnv) {d : Disk} (hd : d.Intact) :
    Sim d (runStop env) (runStop (env.abs d)) := by
  refine (sim_wrapErr _ (sim_loadConfig env.config hd)).bind fun _ d₁ _ hd₁ ↦ ?_
  refine (sim_wrapErr _ (sim_outcome (stopWait env) hd₁)).bind fun _ d₂ _ hd₂ ↦ ?_
  refine (sim_dnsBackupExists env.statFails hd₂).bind fun found d₃ _ hd₃ ↦ ?_
  cases found with
  | true => exact sim_wrapErr _ (sim_restore env.restore hd₃)
  | false => exact .pure () hd₃

end Disk

end PrototypeNet
