import PrototypeNet.Lib.Fallible

/-!
# The start and stop commands of the macOS agent

`start` saves the DNS servers of the active network service in a file and
points the service to the proxy's DNS server; `stop` puts the saved servers
back and removes the file.  What the commands meet outside (the VPN status,
failing system calls) is given with each command, so that a command is a
function of the state, whichever way this keeps the settings and the file.
Printing and flushing the resolver cache are left out.
-/

namespace PrototypeNet

open Fallible

/-! ## What the commands work on -/

/-- The DNS servers of a network service.  `networksetup` takes the one word
`Empty` for no servers, so no service has it as its only server. -/
abbrev ServerList := {servers : List String // servers ≠ ["Empty"]}

/-- The DNS state before the agent modified it. -/
structure DNSBackup where
  service : String
  servers : List String
  deriving DecidableEq, Repr

/-- What the commands ask of the state they work on.  `κ` is what they are told
about the configuration file, `ℓ` what a failed write of the backup leaves. -/
class AgentState (σ : Type) (κ ℓ : outParam Type) where
  dnsIP : κ → σ → Except String String
  dns : σ → String → ServerList
  setDns : (String → ServerList) → σ → σ
  writeBackup : DNSBackup → Option ℓ → σ → σ
  backup : σ → Except String DNSBackup
  hasBackup : σ → Bool
  removeBackup : σ → σ

abbrev AgentM (σ : Type) := ExceptT String (StateM σ)

section Errors

variable {σ α : Type}

/-- An error of `m` is passed on with a text in front. -/
def wrapErr (text : String) (m : AgentM σ α) : AgentM σ α :=
  tryCatch m fun e ↦ throw (text ++ e)

def outcome : Except String α → AgentM σ α
  | .ok a => pure a
  | .error e => throw e

/-- A system call that fails leaves everything as it was. -/
def failing : Option String → AgentM σ Unit
  | none => pure ()
  | some e => throw e

theorem exec_outcome (r : Except String α) (s : σ) : exec (outcome r) s = (r, s) := by
  cases r <;> rfl

end Errors

section Commands

variable {σ κ ℓ : Type} [AgentState σ κ ℓ]

/-! ## `networksetup` -/

def networksetupServers (args : List String) : ServerList :=
  if h : args = ["Empty"] then ⟨[], (List.cons_ne_nil _ _).symm⟩ else ⟨args, h⟩

def setDnsServers (service : String) (args : List String) : AgentM σ Unit :=
  modify fun s ↦
    AgentState.setDns (Function.update (AgentState.dns s) service (networksetupServers args)) s

def dnsServers (error : Option String) (service : String) : AgentM σ (List String) := do
  failing error
  let s ← get
  pure (AgentState.dns s service).val

def setDNS (error : Option String) (service ip : String) : AgentM σ Unit := do
  failing error
  setDnsServers service [ip]

/-- No servers means those of DHCP, for which `networksetup` wants the word
`Empty`. -/
def restoreArgs (servers : List String) : List String :=
  if servers.length = 0 then ["Empty"] else servers

def restoreDNS (error : Option String) (service : String) (servers : List String) :
    AgentM σ Unit := do
  failing error
  setDnsServers service (restoreArgs servers)

/-! ## The backup file -/

def saveDNSBackup (error : Option (String × ℓ)) (backup : DNSBackup) : AgentM σ Unit :=
  match error with
  | none => modify (AgentState.writeBackup backup none)
  | some (e, left) => do
      modify (AgentState.writeBackup backup (some left))
      throw e

def loadDNSBackup (error : Option String) : AgentM σ DNSBackup := do
  failing error
  let s ← get
  outcome (AgentState.backup s)

/-- Any error of the check counts as no file. -/
def dnsBackupExists (statFails : Bool) : AgentM σ Bool := do
  let s ← get
  pure (!statFails && AgentState.hasBackup s)

def removeDNSBackup (error : Option String) : AgentM σ Unit := do
  failing error
  modify AgentState.removeBackup

/-- `LoadConfig`, of which a start uses the DNS server.  The other fields only go
into questions to the system, whose answers are given. -/
def loadConfig (told : κ) : AgentM σ String := do
  let s ← get
  outcome (AgentState.dnsIP told s)

/-! ## Waiting for the VPN -/

/-- The answers of `IsConnected`, one a poll, until the deadline; a query that
fails is tried again. -/
def pollFor (want : Bool) : List (Except String Bool) → Bool
  | [] => false
  | .error _ :: polls => pollFor want polls
  | .ok connected :: polls => if connected = want then true else pollFor want polls

def waitForConnection (first : Except String Bool) (polls : List (Except String Bool)) :
    Except String Unit :=
  match first with
  | .ok true => .ok ()
  | _ =>
      if pollFor true polls then .ok ()
      else .error
        "VPN did not connect within 1m30s — connect it in System Settings and try again"

/-- Here a failing first query counts as disconnected. -/
def waitForDisconnection (first : Except String Bool) (polls : List (Except String Bool)) :
    Except String Unit :=
  match first with
  | .ok true =>
      if pollFor false polls then .ok ()
      else .error
        "VPN did not disconnect within 1m30s — disconnect it in System Settings and try again"
  | _ => .ok ()

/-! ## The commands -/

structure RestoreEnv where
  load : Option String
  set : Option String
  remove : Option String
  deriving DecidableEq, Repr

/-- `ActiveService` is asked twice, and the answers may differ. -/
structure StartEnv (κ ℓ : Type) where
  config : κ
  service : Except String String
  connected : Except String Bool
  backupService : Except String String
  servers : Option String
  save : Option (String × ℓ)
  set : Option String
  waitFirst : Except String Bool
  waitPolls : List (Except String Bool)
  restore : RestoreEnv

structure StopEnv (κ : Type) where
  config : κ
  connected : Except String Bool
  waitFirst : Except String Bool
  waitPolls : List (Except String Bool)
  statFails : Bool
  restore : RestoreEnv

def backupAndSet (env : StartEnv κ ℓ) (dnsIP : String) : AgentM σ String := do
  let service ← wrapErr "detecting active network service: " (outcome env.backupService)
  let servers ← wrapErr "getting current DNS servers: " (dnsServers env.servers service)
  wrapErr "saving DNS backup: " (saveDNSBackup env.save ⟨service, servers⟩)
  wrapErr "setting DNS: " (setDNS env.set service dnsIP)
  pure service

def restore (env : RestoreEnv) : AgentM σ Unit := do
  let backup ← wrapErr "loading DNS backup: " (loadDNSBackup env.load)
  wrapErr "restoring DNS: " (restoreDNS env.set backup.service backup.servers)
  wrapErr "removing DNS backup file: " (removeDNSBackup env.remove)

def giveUp (env : StartEnv κ ℓ) (e : String) : AgentM σ Unit := do
  tryCatch (restore env.restore) fun _ ↦ pure ()
  throw ("waiting for VPN: " ++ e)

/-- The end of a start, once the DNS server is set.  A status that cannot be read
counts as not connected. -/
def awaitConnection (env : StartEnv κ ℓ) : AgentM σ Unit :=
  match env.connected with
  | .ok true => pure ()
  | _ =>
      match waitForConnection env.waitFirst env.waitPolls with
      | .ok () => pure ()
      | .error e => giveUp env e

def runStart (env : StartEnv κ ℓ) : AgentM σ Unit := do
  let dnsIP ← wrapErr "loading config: " (loadConfig env.config)
  let _ ← wrapErr "detecting active network service: " (outcome env.service)
  let _ ← wrapErr "DNS backup and set: " (backupAndSet env dnsIP)
  awaitConnection env

def stopWait (env : StopEnv κ) : Except String Unit :=
  match env.connected with
  | .ok true => waitForDisconnection env.waitFirst env.waitPolls
  | _ => .ok ()

def runStop (env : StopEnv κ) : AgentM σ Unit := do
  let _ ← wrapErr "loading config: " (loadConfig env.config)
  wrapErr "waiting for VPN disconnect: " (outcome (stopWait env))
  if (← dnsBackupExists env.statFails) then
    wrapErr "restoring DNS: " (restore env.restore)
  else pure ()

theorem awaitConnection_cases (env : StartEnv κ ℓ) :
    awaitConnection (σ := σ) env = pure () ∨ ∃ e, awaitConnection (σ := σ) env = giveUp env e := by
  unfold awaitConnection
  split
  · exact .inl rfl
  · split
    · exact .inl rfl
    · exact .inr ⟨_, rfl⟩

end Commands

/-! ## The machine -/

/-- The file in the state directory of a user. -/
def statePath (home file : String) : String :=
  home ++ "/.prototype-net/" ++ file

/-- The error of reading a file that is not there. -/
def notFound (path : String) : String :=
  "open " ++ path ++ ": no such file or directory"

/-- The backup file; one that was not written completely does not parse. -/
inductive BackupFile
  | absent
  | unreadable
  | saved (backup : DNSBackup)
  deriving DecidableEq, Repr

structure Machine where
  home : String
  dns : String → ServerList
  backup : BackupFile

/-- What a write of the file that failed has left behind. -/
inductive Leftover
  | old
  | partly
  | complete
  deriving DecidableEq, Repr

def Leftover.file (backup : DNSBackup) (file : BackupFile) : Leftover → BackupFile
  | .old => file
  | .partly => .unreadable
  | .complete => .saved backup

namespace Machine

def writeBackup (backup : DNSBackup) (left : Option Leftover) (m : Machine) : Machine :=
  { m with backup := (left.getD .complete).file backup m.backup }

def loadBackup (m : Machine) : Except String DNSBackup :=
  match m.backup with
  | .absent => .error ("reading DNS backup: " ++ notFound (statePath m.home "dns-backup.json"))
  | .unreadable => .error "parsing DNS backup: unexpected end of JSON input"
  | .saved backup => .ok backup

end Machine

/-- What the configuration says is given with each command. -/
instance : AgentState Machine (Except String String) Leftover where
  dnsIP told _ := told
  dns := Machine.dns
  setDns dns m := { m with dns := dns }
  writeBackup := Machine.writeBackup
  backup := Machine.loadBackup
  hasBackup m := decide (m.backup ≠ .absent)
  removeBackup m := { m with backup := .absent }

theorem Machine.agent_dns (m : Machine) : AgentState.dns m = m.dns := rfl

theorem Machine.agent_backup (m : Machine) : AgentState.backup m = m.loadBackup := rfl

inductive Command
  | start (env : StartEnv (Except String String) Leftover)
  | stop (env : StopEnv (Except String String))

def Command.run : Command → AgentM Machine Unit
  | .start env => runStart env
  | .stop env => runStop env

/-- A command that fails keeps what it has done so far. -/
def Machine.step (m : Machine) (c : Command) : Option Machine :=
  some (exec c.run m).2

end PrototypeNet
