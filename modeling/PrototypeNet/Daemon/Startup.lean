import PrototypeNet.Daemon.BulkLoad
import PrototypeNet.Daemon.KeyHex
import PrototypeNet.Daemon.Loader
import PrototypeNet.Daemon.Supervisor

/-!
# Starting the daemon

`main` of the daemon reads its settings, waits for the tunnel interface, loads
and attaches the programs, fills their maps and then serves.  The programs are
attached before the maps are filled, so packets already run through them in
every state on the way.  In each such state a packet is either left alone or
translated as it will be once the daemon serves.
-/

namespace PrototypeNet

open ByteWords Fallible Runs UniqueKey

/-! ## Settings -/

/-- The value of an environment variable; one that is not valid Unicode is given
as Rust quotes it. -/
inductive Var
  | text (s : String)
  | notUnicode (quoted : String)
  deriving DecidableEq, Repr

abbrev Environment := String → Option Var

inductive VarError
  | notPresent
  | notUnicode (quoted : String)
  deriving DecidableEq, Repr

def VarError.message : VarError → String
  | .notPresent => "environment variable not found"
  | .notUnicode quoted => "environment variable was not valid unicode: " ++ quoted

def Environment.var (env : Environment) (name : String) : Except VarError String :=
  match env name with
  | none => .error .notPresent
  | some (.notUnicode quoted) => .error (.notUnicode quoted)
  | some (.text s) => .ok s

abbrev MainM := ExceptT Stop (StateM Environment)

def removeVar (name : String) : MainM Unit :=
  modify fun env ↦ Function.update env name none

def requiredVar (name context : String) : MainM String := do
  let env ← get
  match env.var name with
  | .ok s => pure s
  | .error e => throw (.error [context, e.message])

def Stop.context (text : String) : Stop → Stop
  | .panicked => .panicked
  | .error chain => .error (text :: chain)

def parsedKey (context hex : String) : MainM ProxySrcKey :=
  match parseProxyKeyHex hex with
  | .ok key => pure key
  | .error e => throw (e.context context)

def activeKeyVar : String := "PROXY_ADDR_KEY_HEX"

def prevKeyVar : String := "PROXY_ADDR_PREV_KEY_HEX"

structure Settings where
  databaseUrl : String
  interfaceName : String
  wanInterface : String
  activeKey : ProxySrcKey
  prevKey : Option ProxySrcKey
  deriving DecidableEq

def readActiveKey : MainM ProxySrcKey := do
  let hex ← requiredVar activeKeyVar
    "PROXY_ADDR_KEY_HEX environment variable not set (generate with: openssl rand -hex 32)"
  removeVar activeKeyVar
  parsedKey "invalid PROXY_ADDR_KEY_HEX" hex

/-- A variable that is not valid Unicode counts as not set, and stays. -/
def readPrevKey : MainM (Option ProxySrcKey) := do
  let env ← get
  match env.var prevKeyVar with
  | .ok hex => do
      removeVar prevKeyVar
      let key ← parsedKey "invalid PROXY_ADDR_PREV_KEY_HEX" hex
      pure (some key)
  | .error _ => pure none

def readSettings : MainM Settings := do
  let databaseUrl ← requiredVar "DATABASE_URL" "DATABASE_URL environment variable not set"
  let interfaceName ← requiredVar "INTERFACE_NAME" "INTERFACE_NAME environment variable not set"
  let wanInterface ← requiredVar "WAN_INTERFACE" "WAN_INTERFACE environment variable not set"
  let activeKey ← readActiveKey
  let prevKey ← readPrevKey
  pure ⟨databaseUrl, interfaceName, wanInterface, activeKey, prevKey⟩

/-! ## The stages of the start -/

/-- A write to a map of the loaded object; what it needs from the host may be
missing. -/
inductive MapWrite
  | xfrmIfindex (tunnel : String) (index : Except ErrorChain (BitVec 32))
  | obfsKey (slot : ℕ) (key : ProxySrcKey)
  | devWanIpv6 (addr : Except ErrorChain Ipv6Addr)

def MapWrite.apply (m : Maps) : MapWrite → Except ErrorChain Maps
  | .xfrmIfindex _ (.ok index) => .ok { m with xfrmIfindex := m.xfrmIfindex.set! 0 index }
  | .xfrmIfindex tunnel (.error chain) => .error (("failed to get ifindex for " ++ tunnel) :: chain)
  | .obfsKey slot key => .ok { m with obfsKeys := m.obfsKeys.set! slot key }
  | .devWanIpv6 (.ok addr) => .ok { m with devWanIpv6 := m.devWanIpv6.set! 0 addr }
  | .devWanIpv6 (.error chain) =>
      .error ("failed to auto-detect WAN IPv6 for dev-mode" :: chain)

/-- The writes of `load_and_attach`, all of them after the programs have been
attached. -/
def loaderWrites (build : Build) (host : Host) (s : Settings) : List MapWrite :=
  [.xfrmIfindex s.interfaceName (host.ifindex s.interfaceName), .obfsKey 0 s.activeKey] ++
    (s.prevKey.map (.obfsKey 1)).toList ++
    match build with
    | .production => []
    | .devMode => [.devWanIpv6 (getWanIpv6 host s.wanInterface)]

inductive Stage
  | registering
  | polling
  | sleeping
  | loading
  | writing (todo : List MapWrite)
  | fetching
  | inserting (todo : List Row)
  | serving

inductive BootPhase
  | reading
  | running (s : Settings) (stage : Stage)
  | exited (result : Except Stop Unit)

/-- The process, with the maps its programs work on and the table as it was
fetched.  When the process exits, the programs are detached. -/
structure Boot where
  env : Environment
  phase : BootPhase
  maps : Maps
  table : Domains

/-- What the process meets at its next step; an error of a library call comes
with its message. -/
inductive BootEvent
  | read
  | register (error : Option String)
  | poll (found : Bool)
  | wake
  | sigint (error : Option String)
  | sigterm
  | attach (error : Option ErrorChain)
  | write
  | connect (result : Except String Unit)
  | fetch (result : Except String Domains)
  | insert

namespace Boot

def init (env : Environment) : Boot :=
  ⟨env, .reading, .zeroed, .empty⟩

def fail (b : Boot) (chain : ErrorChain) : Boot :=
  { b with phase := .exited (.error (.error chain)) }

def enter (b : Boot) (s : Settings) (stage : Stage) : Boot :=
  { b with phase := .running s stage }

end Boot

/-- `main`, one wait or one write at a time.  A signal counts only where it is
waited for; what the tasks of a serving daemon do is not part of the start. -/
def bootStep (build : Build) (host : Host) (b : Boot) (e : BootEvent) : Option Boot :=
  match b.phase, e with
  | .reading, .read =>
      match exec readSettings b.env with
      | (.ok s, env) => some ({ b with env := env }.enter s .registering)
      | (.error stop, env) => some { b with env := env, phase := .exited (.error stop) }
  | .running s .registering, .register none => some (b.enter s .polling)
  | .running _ .registering, .register (some err) =>
      some (b.fail ["failed to register SIGTERM handler", err])
  | .running s .polling, .poll found => some (b.enter s (if found then .loading else .sleeping))
  | .running s .sleeping, .wake => some (b.enter s .polling)
  | .running s .sleeping, .sigint _ =>
      some (b.fail ["interrupted while waiting for interface " ++ s.interfaceName])
  | .running s .sleeping, .sigterm =>
      some (b.fail ["received SIGTERM while waiting for interface " ++ s.interfaceName])
  | .running s .loading, .attach none => some (b.enter s (.writing (loaderWrites build host s)))
  | .running _ .loading, .attach (some chain) => some (b.fail chain)
  | .running s (.writing (w :: todo)), .write =>
      match w.apply b.maps with
      | .ok m => some ({ b with maps := m }.enter s (.writing todo))
      | .error chain => some (b.fail chain)
  | .running s (.writing []), .connect result =>
      match createPool result with
      | .ok () => some (b.enter s .fetching)
      | .error chain => some (b.fail chain)
  | .running s .fetching, .fetch (.ok table) =>
      some ({ b with table := table }.enter s (.inserting table.rows))
  | .running _ .fetching, .fetch (.error err) =>
      some (b.fail ["failed to fetch all domains for bulk load", err])
  | .running s (.inserting (row :: todo)), .insert =>
      match exec (insertRow row) b.maps.natMap with
      | (.ok (), nat) =>
          some ({ b with maps := { b.maps with natMap := nat } }.enter s (.inserting todo))
      | (.error err, _) => some (b.fail [err])
  | .running s (.inserting []), .register none => some (b.enter s .serving)
  | .running _ (.inserting []), .register (some err) =>
      some (b.fail ["failed to register SIGTERM handler", err])
  | .running _ .serving, .sigint none => some { b with phase := .exited (.ok ()) }
  | .running _ .serving, .sigint (some err) => some (b.fail ["failed to listen for SIGINT", err])
  | .running _ .serving, .sigterm => some { b with phase := .exited (.ok ()) }
  | _, _ => none

/-! ## What a step can do -/

/-- How a running process goes on, if it does not exit. -/
inductive StageMove (build : Build) (host : Host) (s : Settings) (m : Maps) (table : Domains) :
    Stage → BootEvent → Stage → Maps → Domains → Prop
  | registered :
      StageMove build host s m table .registering (.register none) .polling m table
  | found : StageMove build host s m table .polling (.poll true) .loading m table
  | missing : StageMove build host s m table .polling (.poll false) .sleeping m table
  | woken : StageMove build host s m table .sleeping .wake .polling m table
  | attached :
      StageMove build host s m table .loading (.attach none)
        (.writing (loaderWrites build host s)) m table
  | written {w : MapWrite} {todo : List MapWrite} {m' : Maps} (hw : w.apply m = .ok m') :
      StageMove build host s m table (.writing (w :: todo)) .write (.writing todo) m' table
  | connected :
      StageMove build host s m table (.writing []) (.connect (.ok ())) .fetching m table
  | fetched (table' : Domains) :
      StageMove build host s m table .fetching (.fetch (.ok table')) (.inserting table'.rows)
        m table'
  | inserted {row : Row} {todo : List Row} {nat : NatMap}
      (hrow : exec (insertRow row) m.natMap = (.ok (), nat)) :
      StageMove build host s m table (.inserting (row :: todo)) .insert (.inserting todo)
        { m with natMap := nat } table
  | filled :
      StageMove build host s m table (.inserting []) (.register none) .serving m table

theorem bootStep_exited {build : Build} {host : Host} {b : Boot} {r : Except Stop Unit}
    (hphase : b.phase = .exited r) (e : BootEvent) : bootStep build host b e = none := by
  obtain ⟨env, phase, maps, table⟩ := b
  simp only at hphase
  subst hphase
  rfl

theorem reading_moves {build : Build} {host : Host} {e : BootEvent} {b b' : Boot}
    (hphase : b.phase = .reading) (h : bootStep build host b e = some b') :
    b'.maps = b.maps ∧ ((∃ s, b'.phase = .running s .registering ∧
      exec readSettings b.env = (.ok s, b'.env)) ∨ ∃ r, b'.phase = .exited r) := by
  obtain ⟨env, phase, maps, table⟩ := b
  simp only at hphase
  subst hphase
  cases e with
  | read =>
      simp only [bootStep] at h
      split at h
      · cases h
        exact ⟨rfl, .inl ⟨_, rfl, by assumption⟩⟩
      · cases h
        exact ⟨rfl, .inr ⟨_, rfl⟩⟩
  | _ => cases h

theorem stage_moves {build : Build} {host : Host} {s : Settings} {stage : Stage} {e : BootEvent}
    {b b' : Boot} (hphase : b.phase = .running s stage) (h : bootStep build host b e = some b') :
    (∃ r, b' = { b with phase := .exited r }) ∨
      ∃ stage', b'.phase = .running s stage' ∧ b'.env = b.env ∧
        StageMove build host s b.maps b.table stage e stage' b'.maps b'.table := by
  obtain ⟨env, phase, maps, table⟩ := b
  simp only at hphase
  subst hphase
  -- In each stage all events but one or two are out of place.
  cases stage with
  | registering =>
      cases e with
      | register error =>
          cases error <;> cases h
          · exact .inr ⟨_, rfl, rfl, .registered⟩
          · exact .inl ⟨_, rfl⟩
      | _ => cases h
  | polling =>
      cases e with
      | poll found =>
          cases found <;> cases h
          · exact .inr ⟨_, rfl, rfl, .missing⟩
          · exact .inr ⟨_, rfl, rfl, .found⟩
      | _ => cases h
  | sleeping =>
      cases e with
      | wake =>
          cases h
          exact .inr ⟨_, rfl, rfl, .woken⟩
      | sigint error =>
          cases h
          exact .inl ⟨_, rfl⟩
      | sigterm =>
          cases h
          exact .inl ⟨_, rfl⟩
      | _ => cases h
  | loading =>
      cases e with
      | attach error =>
          cases error <;> cases h
          · exact .inr ⟨_, rfl, rfl, .attached⟩
          · exact .inl ⟨_, rfl⟩
      | _ => cases h
  | writing todo =>
      cases todo with
      | nil =>
          cases e with
          | connect result =>
              cases result <;> cases h
              · exact .inl ⟨_, rfl⟩
              · exact .inr ⟨_, rfl, rfl, .connected⟩
          | _ => cases h
      | cons w todo =>
          cases e with
          | write =>
              simp only [bootStep] at h
              split at h
              · rename_i m hm
                cases h
                exact .inr ⟨_, rfl, rfl, .written hm⟩
              · cases h
                exact .inl ⟨_, rfl⟩
          | _ => cases h
  | fetching =>
      cases e with
      | fetch result =>
          cases result <;> cases h
          · exact .inl ⟨_, rfl⟩
          · exact .inr ⟨_, rfl, rfl, .fetched _⟩
      | _ => cases h
  | inserting todo =>
      cases todo with
      | nil =>
          cases e with
          | register error =>
              cases error <;> cases h
              · exact .inr ⟨_, rfl, rfl, .filled⟩
              · exact .inl ⟨_, rfl⟩
          | _ => cases h
      | cons row todo =>
          cases e with
          | insert =>
              simp only [bootStep] at h
              split at h
              · rename_i nat hnat
                cases h
                exact .inr ⟨_, rfl, rfl, .inserted hnat⟩
              · cases h
                exact .inl ⟨_, rfl⟩
          | _ => cases h
  | serving =>
      cases e with
      | sigint error => cases error <;> cases h <;> exact .inl ⟨_, rfl⟩
      | sigterm =>
          cases h
          exact .inl ⟨_, rfl⟩
      | _ => cases h

/-! ## How far the start has come -/

def loadedMaps (build : Build) (host : Host) (s : Settings) : Except ErrorChain Maps :=
  (loaderWrites build host s).foldlM MapWrite.apply .zeroed

/-- The map holds the rows that have been inserted. -/
def Filled (loaded : Maps) (done : List Row) (m : Maps) : Prop :=
  exec (forM done insertRow) loaded.natMap = (.ok (), m.natMap) ∧
    m = { loaded with natMap := m.natMap }

def StageOk (build : Build) (host : Host) (s : Settings) (table : Domains) (m : Maps) :
    Stage → Prop
  | .registering => m = .zeroed
  | .polling => m = .zeroed
  | .sleeping => m = .zeroed
  | .loading => m = .zeroed
  | .writing todo => ∃ done, loaderWrites build host s = done ++ todo ∧
      done.foldlM MapWrite.apply .zeroed = .ok m
  | .fetching => loadedMaps build host s = .ok m
  | .inserting todo => ∃ loaded done, loadedMaps build host s = .ok loaded ∧
      table.rows = done ++ todo ∧ Filled loaded done m
  | .serving => ∃ loaded, loadedMaps build host s = .ok loaded ∧ Filled loaded table.rows m

/-- What holds of a process that was started in the environment `env`. -/
def Boot.Sound (build : Build) (host : Host) (env : Environment) (b : Boot) : Prop :=
  match b.phase with
  | .reading => b.env = env ∧ b.maps = .zeroed
  | .running s stage =>
      exec readSettings env = (.ok s, b.env) ∧ StageOk build host s b.table b.maps stage
  | .exited _ => True

section Progress

variable {build : Build} {host : Host} {env : Environment}

theorem Boot.sound_init : (Boot.init env).Sound build host env :=
  ⟨rfl, rfl⟩

theorem filled_nil (m : Maps) : Filled m [] m :=
  ⟨rfl, rfl⟩

theorem Filled.concat {loaded m : Maps} {done : List Row} (h : Filled loaded done m) {row : Row}
    {nat : NatMap} (hrow : exec (insertRow row) m.natMap = (.ok (), nat)) :
    Filled loaded (done ++ [row]) { m with natMap := nat } := by
  refine ⟨?_, by rw [h.2]⟩
  rw [List.forM_append, exec_bind_of_ok h.1, List.forM_cons, exec_bind_of_ok hrow]
  rfl

theorem foldlM_concat {done : List MapWrite} {w : MapWrite} {m₀ m m' : Maps}
    (hdone : done.foldlM MapWrite.apply m₀ = .ok m) (hw : w.apply m = .ok m') :
    (done ++ [w]).foldlM MapWrite.apply m₀ = .ok m' := by
  rw [List.foldlM_append, hdone]
  simp [bind, Except.bind, hw, pure, Except.pure]

/-- Every stage is entered with what the stage before has done. -/
theorem StageMove.stageOk {s : Settings} {stage stage' : Stage} {e : BootEvent} {m m' : Maps}
    {table table' : Domains} (hmove : StageMove build host s m table stage e stage' m' table')
    (h : StageOk build host s table m stage) : StageOk build host s table' m' stage' := by
  cases hmove with
  | registered => exact h
  | found => exact h
  | missing => exact h
  | woken => exact h
  | attached =>
      refine ⟨[], rfl, ?_⟩
      rw [show m = .zeroed from h]
      rfl
  | written hw =>
      obtain ⟨done, hwrites, hdone⟩ := h
      refine ⟨done ++ [_], ?_, foldlM_concat hdone hw⟩
      rw [hwrites, List.append_assoc, List.singleton_append]
  | connected =>
      obtain ⟨done, hwrites, hdone⟩ := h
      rw [List.append_nil] at hwrites
      rw [StageOk, loadedMaps, hwrites]
      exact hdone
  | fetched table' => exact ⟨m, [], h, rfl, filled_nil m⟩
  | inserted hrow =>
      obtain ⟨loaded, done, hloaded, hrows, hfilled⟩ := h
      refine ⟨loaded, done ++ [_], hloaded, ?_, hfilled.concat hrow⟩
      rw [hrows, List.append_assoc, List.singleton_append]
  | filled =>
      obtain ⟨loaded, done, hloaded, hrows, hfilled⟩ := h
      rw [List.append_nil] at hrows
      exact ⟨loaded, hloaded, hrows ▸ hfilled⟩

theorem Boot.sound_step {b b' : Boot} {e : BootEvent} (hb : b.Sound build host env)
    (h : bootStep build host b e = some b') : b'.Sound build host env := by
  unfold Boot.Sound at hb ⊢
  cases hphase : b.phase with
  | running s stage =>
      rw [hphase] at hb
      rcases stage_moves hphase h with ⟨r, rfl⟩ | ⟨stage', hrunning, henv, hmove⟩
      · trivial
      · rw [hrunning, henv]
        exact ⟨hb.1, hmove.stageOk hb.2⟩
  | exited r =>
      rw [bootStep_exited hphase] at h
      cases h
  | reading =>
      rw [hphase] at hb
      obtain ⟨hmaps, ⟨s, hrunning, hread⟩ | ⟨r, hexited⟩⟩ := reading_moves hphase h
      · rw [hrunning]
        exact ⟨hb.1 ▸ hread, hmaps.trans hb.2⟩
      · rw [hexited]
        trivial

theorem Boot.sound_play {b : Boot} {es : List BootEvent}
    (h : play (bootStep build host) (.init env) es = some b) : b.Sound build host env :=
  play_invariant _ (fun _ _ _ hb hstep ↦ sound_step hb hstep) sound_init h

end Progress

/-! ## What the settings are -/

/-- The settings were read from the environment `env`, which is `env'`
afterwards: the variables of the keys are gone from it. -/
structure Settings.ReadFrom (s : Settings) (env env' : Environment) : Prop where
  interfaceName : env.var "INTERFACE_NAME" = .ok s.interfaceName
  activeKey : ∃ hex, env.var activeKeyVar = .ok hex ∧ parseProxyKeyHex hex = .ok s.activeKey
  activeHidden : env' activeKeyVar = none
  prevHidden : env' prevKeyVar = none ∨ ∃ quoted, env prevKeyVar = some (.notUnicode quoted)
  others : ∀ name, name ≠ activeKeyVar → name ≠ prevKeyVar → env' name = env name

section Settings

variable {env env' : Environment}

theorem requiredVar_ok {name context s : String}
    (h : exec (requiredVar name context) env = (.ok s, env')) :
    env.var name = .ok s ∧ env' = env := by
  rw [requiredVar, exec_bind_of_ok (exec_get env)] at h
  cases hvar : env.var name with
  | ok v =>
      rw [hvar] at h
      cases h
      exact ⟨rfl, rfl⟩
  | error e =>
      rw [hvar] at h
      cases h

theorem parsedKey_ok {context hex : String} {key : ProxySrcKey}
    (h : exec (parsedKey context hex) env = (.ok key, env')) :
    parseProxyKeyHex hex = .ok key ∧ env' = env := by
  unfold parsedKey at h
  split at h
  · cases h
    exact ⟨by assumption, rfl⟩
  · cases h

theorem readActiveKey_ok {key : ProxySrcKey} (h : exec readActiveKey env = (.ok key, env')) :
    ∃ hex, env.var activeKeyVar = .ok hex ∧ parseProxyKeyHex hex = .ok key ∧
      env' = Function.update env activeKeyVar none := by
  obtain ⟨hex, env₁, h₁, hrest₁⟩ := exec_bind_eq_ok h
  obtain ⟨hvar, rfl⟩ := requiredVar_ok h₁
  obtain ⟨_, env₂, h₂, hrest₂⟩ := exec_bind_eq_ok hrest₁
  cases h₂
  obtain ⟨hkey, rfl⟩ := parsedKey_ok hrest₂
  exact ⟨hex, hvar, hkey, rfl⟩

theorem readPrevKey_ok {prev : Option ProxySrcKey}
    (h : exec readPrevKey env = (.ok prev, env')) :
    (∀ name, name ≠ prevKeyVar → env' name = env name) ∧
      (env' prevKeyVar = none ∨ ∃ quoted, env prevKeyVar = some (.notUnicode quoted)) := by
  rw [readPrevKey, exec_bind_of_ok (exec_get env)] at h
  cases hvar : env.var prevKeyVar with
  | ok hex =>
      rw [hvar] at h
      obtain ⟨_, env₁, h₁, hrest₁⟩ := exec_bind_eq_ok h
      cases h₁
      obtain ⟨key, env₂, h₂, hrest₂⟩ := exec_bind_eq_ok hrest₁
      obtain ⟨-, rfl⟩ := parsedKey_ok h₂
      cases hrest₂
      exact ⟨fun name hname ↦ Function.update_of_ne hname _ _, .inl (Function.update_self _ _ _)⟩
  | error e =>
      rw [hvar] at h
      cases h
      refine ⟨fun _ _ ↦ rfl, ?_⟩
      unfold Environment.var at hvar
      split at hvar
      · exact .inl ‹_›
      · exact .inr ⟨_, ‹_›⟩
      · cases hvar

theorem readSettings_ok {s : Settings} (h : exec readSettings env = (.ok s, env')) :
    s.ReadFrom env env' := by
  obtain ⟨url, env₁, h₁, hrest₁⟩ := exec_bind_eq_ok h
  obtain ⟨-, rfl⟩ := requiredVar_ok h₁
  obtain ⟨interface, env₂, h₂, hrest₂⟩ := exec_bind_eq_ok hrest₁
  obtain ⟨hinterface, rfl⟩ := requiredVar_ok h₂
  obtain ⟨wan, env₃, h₃, hrest₃⟩ := exec_bind_eq_ok hrest₂
  obtain ⟨-, rfl⟩ := requiredVar_ok h₃
  obtain ⟨key, env₄, h₄, hrest₄⟩ := exec_bind_eq_ok hrest₃
  obtain ⟨hex, hvar, hkey, rfl⟩ := readActiveKey_ok h₄
  obtain ⟨prev, env₅, h₅, hrest₅⟩ := exec_bind_eq_ok hrest₄
  obtain ⟨hothers, hprev⟩ := readPrevKey_ok h₅
  cases hrest₅
  have hne : prevKeyVar ≠ activeKeyVar := by decide
  refine ⟨hinterface, ⟨hex, hvar, hkey⟩, ?_, ?_, ?_⟩
  · rw [hothers _ hne.symm, Function.update_self]
  · rwa [Function.update_of_ne hne] at hprev
  · intro name hactive hname
    rw [hothers name hname, Function.update_of_ne hactive]

theorem isZero_of_parseProxyKeyHex {hex : String} {key : ProxySrcKey}
    (h : parseProxyKeyHex hex = .ok key) : key.isZero = false := by
  unfold parseProxyKeyHex at h
  simp only at h
  split_ifs at h
  cases hbytes : (List.range 32).mapM (readByte (Text.trim hex.toList)) with
  | error e =>
      rw [hbytes] at h
      cases h
  | ok bytes =>
      rw [hbytes] at h
      simp only [bind, Except.bind] at h
      split_ifs at h with hzero
      rw [← Except.ok.inj h]
      exact Bool.eq_false_iff.mpr hzero

end Settings

/-! ## What the maps hold -/

/-- The writes of the loader are those of `load_and_attach`. -/
theorem loadedMaps_eq (build : Build) (host : Host) (s : Settings) :
    (loadedMaps build host s).toOption =
      loadAndAttach build host s.interfaceName s.wanInterface s.activeKey s.prevKey := by
  unfold loadedMaps loaderWrites loadAndAttach
  cases hidx : host.ifindex s.interfaceName with
  | error chain => simp [MapWrite.apply, bind, Except.bind, Except.toOption]
  | ok idx =>
      cases build with
      | production =>
          cases s.prevKey <;>
            simp [MapWrite.apply, bind, Except.bind, Except.toOption, pure, Except.pure]
      | devMode =>
          cases hwan : getWanIpv6 host s.wanInterface <;> cases s.prevKey <;>
            simp [MapWrite.apply, bind, Except.bind, Except.toOption, pure, Except.pure]

/-- What the maps may hold while the daemon starts: of the table only its own
rows, and these only beside the key and the interface. -/
structure Underway (host : Host) (s : Settings) (rows : List Row) (m : Maps) : Prop where
  nat : ∀ i e, m.natMap.get i = some e → ∃ row ∈ rows, row.domainId = i ∧ e = natEntry row
  loaded : (∀ i, m.natMap.get i = none) ∨
    (m.obfsKeys[0]! = s.activeKey ∧ host.ifindex s.interfaceName = .ok m.xfrmIfindex[0]!)

section Holding

variable {build : Build} {host : Host} {s : Settings} {m m' : Maps} {rows : List Row}

theorem natMap_apply {w : MapWrite} (h : w.apply m = .ok m') : m'.natMap = m.natMap := by
  cases w with
  | xfrmIfindex tunnel index =>
      cases index <;> cases h
      rfl
  | obfsKey slot key =>
      cases h
      rfl
  | devWanIpv6 addr =>
      cases addr <;> cases h
      rfl

theorem foldlM_cons_eq_ok {w : MapWrite} {ws : List MapWrite}
    (h : (w :: ws).foldlM MapWrite.apply m = .ok m') :
    ∃ m₁, w.apply m = .ok m₁ ∧ ws.foldlM MapWrite.apply m₁ = .ok m' := by
  rw [List.foldlM_cons] at h
  cases hw : w.apply m with
  | error e =>
      rw [hw] at h
      cases h
  | ok m₁ =>
      rw [hw] at h
      exact ⟨m₁, rfl, h⟩

theorem natMap_foldlM {ws : List MapWrite} (h : ws.foldlM MapWrite.apply m = .ok m') :
    m'.natMap = m.natMap := by
  induction ws generalizing m with
  | nil =>
      cases h
      rfl
  | cons w ws ih =>
      obtain ⟨m₁, hw, hws⟩ := foldlM_cons_eq_ok h
      rw [ih hws, natMap_apply hw]

theorem underway_of_empty (h : m.natMap = .empty) : Underway host s rows m := by
  have hnone (i : BitVec 32) : m.natMap.get i = none := by
    rw [h, BoundedMap.get_empty]
  refine ⟨fun i e he ↦ ?_, .inl hnone⟩
  rw [hnone i] at he
  cases he

theorem loadedMaps_ok (h : loadedMaps build host s = .ok m) :
    m.natMap = .empty ∧ host.ifindex s.interfaceName = .ok m.xfrmIfindex[0]! ∧
      m.obfsKeys[0]! = s.activeKey := by
  have hload := loadedMaps_eq build host s
  rw [h] at hload
  obtain ⟨hnat, htunnel, hkey, -⟩ := loadAndAttach_eq_some hload.symm
  exact ⟨hnat, htunnel, hkey⟩

/-- Inserts that all succeed have filled the map with the rows. -/
theorem get_of_exec_rows {nat : NatMap} (hunique : Unique Row.domainId rows)
    (h : exec (forM rows insertRow) .empty = (.ok (), nat)) :
    rows.length ≤ 65536 ∧ ∀ i, nat.get i = (lookup Row.domainId rows i).map natEntry := by
  have hfresh : ∀ r ∈ rows, (BoundedMap.empty : NatMap).get r.domainId = none :=
    fun r _ ↦ BoundedMap.get_empty _
  rcases Nat.lt_or_ge 65536 rows.length with hfull | hroom
  · obtain ⟨nat', hexec, -⟩ := exec_rows_of_overflow rows .empty hunique hfresh
      (by rwa [BoundedMap.size_empty, Nat.zero_add])
    rw [hexec] at h
    cases h
  · obtain ⟨nat', hexec, -, hget⟩ := exec_rows_of_room rows .empty hunique hfresh
      (by rwa [BoundedMap.size_empty, Nat.zero_add])
    rw [hexec] at h
    cases h
    refine ⟨hroom, fun i ↦ ?_⟩
    rw [hget i, BoundedMap.get_empty, Option.or_none]

theorem Filled.maps_eq {loaded : Maps} {done : List Row} (h : Filled loaded done m) :
    m.obfsKeys = loaded.obfsKeys ∧ m.xfrmIfindex = loaded.xfrmIfindex := by
  rw [h.2]
  exact ⟨rfl, rfl⟩

theorem Filled.get {loaded : Maps} {done : List Row} (hunique : Unique Row.domainId done)
    (hloaded : loadedMaps build host s = .ok loaded) (h : Filled loaded done m) :
    done.length ≤ 65536 ∧ ∀ i, m.natMap.get i = (lookup Row.domainId done i).map natEntry := by
  apply get_of_exec_rows hunique
  rw [← (loadedMaps_ok hloaded).1]
  exact h.1

theorem Filled.configured {loaded : Maps} {done : List Row} (h : Filled loaded done m)
    (hloaded : loadedMaps build host s = .ok loaded) :
    m.obfsKeys[0]! = s.activeKey ∧ host.ifindex s.interfaceName = .ok m.xfrmIfindex[0]! := by
  obtain ⟨-, htunnel, hkey⟩ := loadedMaps_ok hloaded
  obtain ⟨hkeys, hindex⟩ := h.maps_eq
  rw [hkeys, hindex]
  exact ⟨hkey, htunnel⟩

theorem Filled.underway {loaded : Maps} {done todo : List Row} {table : Domains}
    (hloaded : loadedMaps build host s = .ok loaded) (hrows : table.rows = done ++ todo)
    (h : Filled loaded done m) : Underway host s table.rows m := by
  have hunique : Unique Row.domainId done := by
    have := table.uniqueDomainId
    rw [hrows, UniqueKey.Unique, List.map_append] at this
    exact (List.nodup_append.mp this).1
  refine ⟨fun i e he ↦ ?_, .inr (h.configured hloaded)⟩
  rw [(Filled.get hunique hloaded h).2 i] at he
  obtain ⟨row, hrow, rfl⟩ := Option.map_eq_some_iff.mp he
  obtain ⟨hmem, hid⟩ := mem_of_lookup hrow
  exact ⟨row, hrows ▸ List.mem_append_left todo hmem, hid, rfl⟩

/-- In every stage the maps hold no more than they should. -/
theorem underway_of_stageOk {table : Domains} {stage : Stage}
    (h : StageOk build host s table m stage) : Underway host s table.rows m := by
  cases stage with
  | registering => exact underway_of_empty (congrArg Maps.natMap h)
  | polling => exact underway_of_empty (congrArg Maps.natMap h)
  | sleeping => exact underway_of_empty (congrArg Maps.natMap h)
  | loading => exact underway_of_empty (congrArg Maps.natMap h)
  | writing todo =>
      obtain ⟨done, -, hdone⟩ := h
      exact underway_of_empty (natMap_foldlM hdone)
  | fetching => exact underway_of_empty (loadedMaps_ok h).1
  | inserting todo =>
      obtain ⟨loaded, done, hloaded, hrows, hfilled⟩ := h
      exact hfilled.underway hloaded hrows
  | serving =>
      obtain ⟨loaded, hloaded, hfilled⟩ := h
      exact hfilled.underway hloaded (List.append_nil _).symm

end Holding

/-! ## What packets meet -/

/-- The flow leaves as the table and the key say: from its proxy source to the
origin of its domain. -/
def Configured (key : ProxySrcKey) (rows : List Row) (flow : Flow) (pub : Tuple) : Prop :=
  ∃ row ∈ rows, row.domainId = flow.domainId ∧ ∃ a, flow.proxySrc key = some a ∧
    pub = ⟨a, row.originIpv6, flow.srcPort, flow.dstPort, flow.proto⟩

/-- The program decides about the packet without having touched anything. -/
def LeavesAlone (prog : BpfM TcAction) (s : Ctx) : Prop :=
  ∃ a, exec prog s = (.ok a, s) ∧ (a = .ok ∨ a = .shot)

/-- What `tc_ingress` sends out carries the public tuple of its flow. -/
theorem tcIngress_sends (m : Maps) (d : List Byte) :
    LeavesAlone (tcIngress .production) ⟨d, m⟩ ∨
      ∃ f t pub d', Carries f t d ∧ HasPrefix syntheticPrefix t.dst ∧
        m.publish (Flow.ofInner t) = some pub ∧
        exec (tcIngress .production) ⟨d, m⟩ = (.ok .ok, ⟨d', m⟩) ∧ Carries f pub d' := by
  rcases tcIngress_cases .production ⟨d, m⟩ with halone | ⟨f, t, pub, hc, hpre, hpub⟩
  · exact .inl halone
  · obtain ⟨d', hexec, hr⟩ := tcIngress_publishes hc hpre hpub
    refine .inr ⟨f, t, pub, d', hc, hpre, hpub, hexec, ?_⟩
    obtain ⟨key, a, o, -, -, -, rfl⟩ := (m.publish_eq_some_iff _ pub).mp hpub
    exact hr.carries hc

/-- `tc_ingress` sends a packet out only as it is configured. -/
def SendsOnly (key : ProxySrcKey) (rows : List Row) (m : Maps) : Prop :=
  ∀ d, LeavesAlone (tcIngress .production) ⟨d, m⟩ ∨
    ∃ f t pub d', Carries f t d ∧ HasPrefix syntheticPrefix t.dst ∧
      Configured key rows (Flow.ofInner t) pub ∧
      exec (tcIngress .production) ⟨d, m⟩ = (.ok .ok, ⟨d', m⟩) ∧ Carries f pub d'

/-- `tc_ingress_wan` takes a packet for a reply only if it answers a flow that
is configured, and then sends it to the tunnel. -/
def ReturnsOnly (key : ProxySrcKey) (rows : List Row) (tunnel : Option (BitVec 32)) (m : Maps) :
    Prop :=
  ∀ d, LeavesAlone (tcIngressWan .production) ⟨d, m⟩ ∨
    ∃ f flow pub d' index, Carries f pub.mirror d ∧ Configured key rows flow pub ∧
      tunnel = some index ∧
      exec (tcIngressWan .production) ⟨d, m⟩ =
        (.ok (if index ≠ 0 then .redirect index else .shot), ⟨d', m⟩) ∧
      Carries f flow.inner.mirror d'

section Packets

variable {host : Host} {s : Settings} {rows : List Row} {m : Maps} {flow : Flow} {pub : Tuple}

theorem Underway.configured (h : Underway host s rows m) (hpub : m.publish flow = some pub) :
    Configured s.activeKey rows flow pub ∧
      host.ifindex s.interfaceName = .ok m.xfrmIfindex[0]! := by
  obtain ⟨key, a, o, hkey, ho, ha, rfl⟩ := (m.publish_eq_some_iff flow pub).mp hpub
  obtain ⟨e, he, rfl⟩ := Option.map_eq_some_iff.mp ho
  obtain ⟨row, hrow, hid, rfl⟩ := h.nat _ e he
  rcases h.loaded with hnone | ⟨hactive, htunnel⟩
  · rw [hnone] at he
    cases he
  · have hsame : key = s.activeKey := by
      unfold Maps.activeKey at hkey
      split_ifs at hkey
      cases hkey
      exact hactive
    exact ⟨⟨row, hrow, hid, a, hsame ▸ ha, rfl⟩, htunnel⟩

theorem Underway.sendsOnly (h : Underway host s rows m) : SendsOnly s.activeKey rows m := by
  intro d
  rcases tcIngress_sends m d with halone | ⟨f, t, pub, d', hc, hpre, hpub, hexec, hd'⟩
  · exact .inl halone
  · exact .inr ⟨f, t, pub, d', hc, hpre, (h.configured hpub).1, hexec, hd'⟩

theorem Underway.returnsOnly (h : Underway host s rows m) :
    ReturnsOnly s.activeKey rows (host.ifindex s.interfaceName).toOption m := by
  intro d
  rcases tcIngressWan_outcome .production ⟨d, m⟩ with halone | ⟨f, t, flow, hc, hres⟩
  · exact .inl halone
  · have hpub := (m.resolve_iff_publish flow t.mirror).mp hres
    obtain ⟨hconf, htunnel⟩ := h.configured hpub
    have hc' : Carries f t.mirror.mirror d := hc
    obtain ⟨d', hexec, hd'⟩ := tcIngressWan_carries (s := ⟨d, m⟩) .production hpub hc'
    exact .inr ⟨f, flow, t.mirror, d', _, hc', hconf, toOption_eq_some_iff.mpr htunnel, hexec, hd'⟩

end Packets

/-! ## Coming to serve -/

section Serving

variable {build : Build} {host : Host} {env env' : Environment} {s : Settings} {table : Domains}

theorem play_writes {ws : List MapWrite} {b : Boot} {m : Maps}
    (h : ws.foldlM MapWrite.apply b.maps = .ok m) :
    play (bootStep build host) (b.enter s (.writing ws)) (ws.map fun _ ↦ .write) =
      some ({ b with maps := m }.enter s (.writing [])) := by
  induction ws generalizing b with
  | nil =>
      cases h
      rfl
  | cons w ws ih =>
      obtain ⟨m₁, hw, hws⟩ := foldlM_cons_eq_ok h
      have hstep : bootStep build host (b.enter s (.writing (w :: ws))) .write =
          some ({ b with maps := m₁ }.enter s (.writing ws)) := by
        simp only [bootStep, Boot.enter, hw]
      rw [List.map_cons, play, hstep]
      exact ih hws

theorem play_inserts {rows : List Row} {b : Boot} {nat : NatMap}
    (h : exec (forM rows insertRow) b.maps.natMap = (.ok (), nat)) :
    play (bootStep build host) (b.enter s (.inserting rows)) (rows.map fun _ ↦ .insert) =
      some ({ b with maps := { b.maps with natMap := nat } }.enter s (.inserting [])) := by
  induction rows generalizing b with
  | nil =>
      cases h
      rfl
  | cons row rows ih =>
      rw [List.forM_cons] at h
      obtain ⟨_, nat₁, hrow, hrest⟩ := exec_bind_eq_ok h
      have hstep : bootStep build host (b.enter s (.inserting (row :: rows))) .insert =
          some ({ b with maps := { b.maps with natMap := nat₁ } }.enter s (.inserting rows)) := by
        simp only [bootStep, Boot.enter, hrow]
      rw [List.map_cons, play, hstep]
      exact ih hrest

/-- A start that meets no error, with the interface already there. -/
def quietStart (build : Build) (host : Host) (s : Settings) (table : Domains) : List BootEvent :=
  [BootEvent.read, .register none, .poll true, .attach none] ++
    ((loaderWrites build host s).map (fun _ ↦ BootEvent.write) ++
      ([BootEvent.connect (.ok ()), .fetch (.ok table)] ++
        (table.rows.map (fun _ ↦ BootEvent.insert) ++ [BootEvent.register none])))

theorem play_quietStart {loaded : Maps} {nat : NatMap}
    (hread : exec readSettings env = (.ok s, env')) (hloaded : loadedMaps build host s = .ok loaded)
    (hrows : exec (forM table.rows insertRow) loaded.natMap = (.ok (), nat)) :
    play (bootStep build host) (.init env) (quietStart build host s table) =
      some ⟨env', .running s .serving, { loaded with natMap := nat }, table⟩ := by
  let read : Boot := ⟨env', .reading, .zeroed, .empty⟩
  have hattached : play (bootStep build host) (.init env)
      [.read, .register none, .poll true, .attach none] =
        some (read.enter s (.writing (loaderWrites build host s))) := by
    have hfirst : bootStep build host (.init env) .read = some (read.enter s .registering) := by
      simp only [bootStep, Boot.init, hread]
      rfl
    rw [play, hfirst]
    rfl
  have hwritten : play (bootStep build host) (read.enter s (.writing (loaderWrites build host s)))
      ((loaderWrites build host s).map fun _ ↦ .write) =
        some ({ read with maps := loaded }.enter s (.writing [])) :=
    play_writes hloaded
  have hfetched : play (bootStep build host) ({ read with maps := loaded }.enter s (.writing []))
      [.connect (.ok ()), .fetch (.ok table)] =
        some ({ read with maps := loaded, table := table }.enter s (.inserting table.rows)) := rfl
  have hinserted : play (bootStep build host)
      ({ read with maps := loaded, table := table }.enter s (.inserting table.rows))
      (table.rows.map fun _ ↦ .insert) =
        some (Boot.enter ⟨env', .reading, { loaded with natMap := nat }, table⟩ s
          (.inserting [])) :=
    play_inserts hrows
  rw [quietStart, play_append, hattached, Option.bind_some, play_append, hwritten,
    Option.bind_some, play_append, hfetched, Option.bind_some, play_append, hinserted]
  rfl

theorem exists_serving (hread : exec readSettings env = (.ok s, env'))
    (hload : (loadAndAttach build host s.interfaceName s.wanInterface s.activeKey
      s.prevKey).isSome = true)
    (hroom : table.rows.length ≤ 65536) :
    ∃ es b, play (bootStep build host) (.init env) es = some b ∧
      b.phase = .running s .serving ∧ b.table = table := by
  rw [← loadedMaps_eq] at hload
  cases hloaded : loadedMaps build host s with
  | error e =>
      rw [hloaded] at hload
      cases hload
  | ok loaded =>
      obtain ⟨nat, hrows, -⟩ := exec_rows_of_room table.rows loaded.natMap table.uniqueDomainId
        (fun r _ ↦ by rw [(loadedMaps_ok hloaded).1, BoundedMap.get_empty])
        (by rwa [(loadedMaps_ok hloaded).1, BoundedMap.size_empty, Nat.zero_add])
      exact ⟨_, _, play_quietStart hread hloaded hrows, rfl, rfl⟩

/-- A serving daemon has passed through all stages. -/
theorem serving_filled {es : List BootEvent} {b : Boot}
    (hplay : play (bootStep build host) (.init env) es = some b)
    (hphase : b.phase = .running s .serving) :
    exec readSettings env = (.ok s, b.env) ∧ ∃ loaded, loadedMaps build host s = .ok loaded ∧
      Filled loaded b.table.rows b.maps := by
  have hsound := Boot.sound_play hplay
  rwa [Boot.Sound, hphase] at hsound

end Serving

/-! ## The start as a whole -/

def demoEnvironment : Environment := fun name ↦
  if name = "PROXY_ADDR_KEY_HEX" then some (.text (String.ofList (List.replicate 64 '1')))
  else if name = "INTERFACE_NAME" then some (.text "xfrm0")
  else if name = "PROXY_ADDR_PREV_KEY_HEX" then none
  else some (.text "enp0s3")

def demoSettings : Settings where
  databaseUrl := "enp0s3"
  interfaceName := "xfrm0"
  wanInterface := "enp0s3"
  activeKey := ⟨Vector.replicate 16 0x11, Vector.replicate 16 0x11⟩
  prevKey := none

def demoTable : Domains where
  rows := [⟨7, "a", demoOrigin, syntheticIpv6 7, none⟩]
  uniqueDomain := List.nodup_singleton _
  uniqueDomainId := List.nodup_singleton _

theorem exists_serving_demo :
    ∃ es b, play (bootStep .production demoHost) (.init demoEnvironment) es = some b ∧
      b.phase = .running demoSettings .serving ∧ b.table = demoTable := by
  have hread : (exec readSettings demoEnvironment).1 = .ok demoSettings := by
    decide +kernel
  exact exists_serving (Prod.ext hread rfl) rfl (by decide)

/-- Packets run through the programs from the moment they are attached.  Until
the daemon serves, and when it begins to, none is sent on but as the settings and
the table say. -/
theorem startup_fails_closed (host : Host) (env : Environment) (es : List BootEvent) (b : Boot)
    (s : Settings) (stage : Stage)
    (hplay : play (bootStep .production host) (.init env) es = some b)
    (hphase : b.phase = .running s stage) :
    SendsOnly s.activeKey b.table.rows b.maps ∧
      ReturnsOnly s.activeKey b.table.rows (host.ifindex s.interfaceName).toOption b.maps := by
  have hsound := Boot.sound_play hplay
  rw [Boot.Sound, hphase] at hsound
  have hunder := underway_of_stageOk hsound.2
  exact ⟨hunder.sendsOnly, hunder.returnsOnly⟩

theorem startup_fails_closed_demo :
    ∃ es b, play (bootStep .production demoHost) (.init demoEnvironment) es = some b ∧
      SendsOnly demoSettings.activeKey demoTable.rows b.maps ∧
      ReturnsOnly demoSettings.activeKey demoTable.rows (some 5) b.maps := by
  obtain ⟨es, b, hplay, hphase, htable⟩ := exists_serving_demo
  have hclosed := startup_fails_closed demoHost demoEnvironment es b demoSettings .serving hplay
    hphase
  rw [htable] at hclosed
  exact ⟨es, b, hplay, hclosed⟩

/-- A daemon that begins to serve publishes exactly the flows of the table, under
the key from its environment, where the key is no longer to be seen. -/
theorem serving_daemon_publishes_table (build : Build) (host : Host) (env : Environment)
    (es : List BootEvent) (b : Boot) (s : Settings)
    (hplay : play (bootStep build host) (.init env) es = some b)
    (hphase : b.phase = .running s .serving) :
    s.ReadFrom env b.env ∧ host.ifindex s.interfaceName = .ok b.maps.xfrmIfindex[0]! ∧
      ∀ flow pub, b.maps.publish flow = some pub ↔
        Configured s.activeKey b.table.rows flow pub := by
  obtain ⟨hread, loaded, hloaded, hfilled⟩ := serving_filled hplay hphase
  have hfrom := readSettings_ok hread
  obtain ⟨hkey, htunnel⟩ := hfilled.configured hloaded
  refine ⟨hfrom, htunnel, fun flow pub ↦ ⟨fun h ↦ ?_, ?_⟩⟩
  · exact ((hfilled.underway hloaded (List.append_nil _).symm).configured h).1
  · rintro ⟨row, hrow, hid, a, ha, rfl⟩
    obtain ⟨hex, -, hparse⟩ := hfrom.activeKey
    have hactive : b.maps.activeKey = some s.activeKey := by
      rw [Maps.activeKey_of_not_isZero, hkey]
      rw [hkey, isZero_of_parseProxyKeyHex hparse]
      exact Bool.false_ne_true
    have horigin : b.maps.origin flow.domainId = some row.originIpv6 := by
      rw [Maps.origin, (Filled.get b.table.uniqueDomainId hloaded hfilled).2,
        lookup_eq_some_of_mem b.table.uniqueDomainId hrow hid]
      rfl
    exact (b.maps.publish_eq_some_iff flow _).mpr ⟨_, a, _, hactive, horigin, ha, rfl⟩

theorem serving_daemon_publishes_table_demo :
    ∃ es b pub, play (bootStep .production demoHost) (.init demoEnvironment) es = some b ∧
      b.maps.publish demoFlow = some pub ∧ pub.dst = demoOrigin ∧
      b.env "PROXY_ADDR_KEY_HEX" = none := by
  obtain ⟨es, b, hplay, hphase, htable⟩ := exists_serving_demo
  obtain ⟨hfrom, -, hpublish⟩ := serving_daemon_publishes_table .production demoHost
    demoEnvironment es b demoSettings hplay hphase
  have hsome : (demoFlow.proxySrc demoSettings.activeKey).isSome = true := by
    decide +kernel
  obtain ⟨a, ha⟩ := Option.isSome_iff_exists.mp hsome
  rw [htable] at hpublish
  exact ⟨es, b, _, hplay, (hpublish demoFlow _).mpr ⟨_, List.mem_singleton_self _, rfl, a, ha, rfl⟩,
    rfl, hfrom.activeHidden⟩

/-- A daemon can come to serve a table exactly if its settings can be read, the
loader finds what it asks the host for, and the table fits into the map. -/
theorem daemon_serves_iff (build : Build) (host : Host) (env : Environment) (table : Domains) :
    (∃ es b s, play (bootStep build host) (.init env) es = some b ∧
      b.phase = .running s .serving ∧ b.table = table) ↔
    table.rows.length ≤ 65536 ∧ ∃ s env', exec readSettings env = (.ok s, env') ∧
      (loadAndAttach build host s.interfaceName s.wanInterface s.activeKey
        s.prevKey).isSome = true := by
  constructor
  · rintro ⟨es, b, s, hplay, hphase, rfl⟩
    obtain ⟨hread, loaded, hloaded, hfilled⟩ := serving_filled hplay hphase
    refine ⟨(Filled.get b.table.uniqueDomainId hloaded hfilled).1, s, b.env, hread, ?_⟩
    rw [← loadedMaps_eq, hloaded]
    rfl
  · rintro ⟨hroom, s, env', hread, hload⟩
    obtain ⟨es, b, hplay, hphase, htable⟩ := exists_serving hread hload hroom
    exact ⟨es, b, s, hplay, hphase, htable⟩

end PrototypeNet
