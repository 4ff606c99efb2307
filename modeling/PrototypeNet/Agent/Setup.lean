import PrototypeNet.Agent.Bundle
import PrototypeNet.Agent.Durability

/-!
# Setting a client up

`setup` reads a bundle, writes the configuration profile and saves the
configuration.  What it does to the agent's files is the command of a run on
the files, so full runs of the agent are such runs.  A client that was issued
under a plain name is installed under it: the profile carries the client's own
identity, and every later start uses the DNS server the setup was given.
-/

namespace PrototypeNet

open ByteWords Fallible Runs Json Xml

/-! ## Reading certificates -/

structure Certificate where
  raw : List Byte
  subjectCN : String
  deriving DecidableEq, Repr

/-- The readers of PEM and X.509, which are libraries of the agent's language. -/
structure Pki where
  pemDecode : String → Option (List Byte)
  pemDecode_empty : pemDecode "" = none
  parseCertificate : List Byte → Except String Certificate

namespace Bundle

def parseCACert (pki : Pki) (b : Bundle) : Except String Certificate :=
  match pki.pemDecode b.caCertPEM with
  | none => .error "no valid PEM block found"
  | some block => (pki.parseCertificate block).mapError ("parsing X.509 certificate: " ++ ·)

def caIssuerCN (pki : Pki) (b : Bundle) : Except String String := do
  let cert ← b.parseCACert pki
  if cert.subjectCN = "" then throw "CA certificate has empty Subject CN"
  return cert.subjectCN

def hasPKCS12 (b : Bundle) : Bool :=
  b.pkcs12B64 ≠ "" && b.pkcs12Password ≠ ""

/-- The decoder passes over line ends. -/
def decodePKCS12 (b : Bundle) : Except String (List Byte) :=
  if b.hasPKCS12 then
    match Base64.decode (b.pkcs12B64.toList.filter fun c ↦ c ≠ '\r' && c ≠ '\n') with
    | none => .error "decoding pkcs12_b64: illegal base64 data"
    | some data => .ok data
  else .error "bundle does not contain pre-generated PKCS#12"

def validate (pki : Pki) (b : Bundle) : Except String Unit := do
  if b.caCertPEM = "" then throw "bundle missing ca_cert_pem"
  if b.clientCertPEM = "" then throw "bundle missing client_cert_pem"
  if b.clientKeyPEM = "" then throw "bundle missing client_key_pem"
  if b.clientID = "" then throw "bundle missing client_id"
  let _ ← (b.parseCACert pki).mapError ("invalid ca_cert_pem: " ++ ·)
  if (pki.pemDecode b.clientCertPEM).isNone then
    throw "client_cert_pem: no valid PEM block found"
  if (pki.pemDecode b.clientKeyPEM).isNone then
    throw "client_key_pem: no valid PEM block found"

def load (pki : Pki) (file : Except String (List Char)) : Except String Bundle := do
  let data ← file.mapError ("reading bundle file: " ++ ·)
  let b ← (readBundle data).mapError fun e ↦ "parsing bundle JSON: " ++ errorText e
  b.validate pki
  return b

end Bundle

/-! ## The command -/

/-- The flags of a setup and what it meets. -/
structure SetupEnv where
  pki : Pki
  serverIP : String
  dnsIP : String
  bundleFile : Except String (List Char)
  /-- The synthetic range of the contract. -/
  contract : Except String String
  /-- The password of an identity made at run time, and its file. -/
  generateP12 : Bundle → Except String String
  readP12 : Except String (List Byte)
  stateDir : Option String
  mkdir : Option String
  uuids : ProfileUuids
  profile : OutputErrors
  profileLeft : Written
  save : Option (String × Written)

def setupProfileName : String :=
  "prototype-net"

namespace SetupEnv

def identity (env : SetupEnv) (b : Bundle) : Except String (List Byte × String) :=
  if b.hasPKCS12 then do
    let data ← b.decodePKCS12.mapError ("decoding pre-generated PKCS#12: " ++ ·)
    return (data, b.pkcs12Password)
  else do
    let password ← (env.generateP12 b).mapError ("generating PKCS#12: " ++ ·)
    let data ← env.readP12.mapError ("reading PKCS#12 file: " ++ ·)
    return (data, password)

def params (env : SetupEnv) (clientID cn : String) (cert : Certificate)
    (identity : List Byte × String) : Params :=
  ⟨env.serverIP, clientID, cn, cert.raw, identity.1, identity.2, setupProfileName⟩

def config (env : SetupEnv) (clientID cn synthetic : String) : Config :=
  ⟨env.serverIP, env.dnsIP, clientID, synthetic, setupProfileName, cn⟩

/-- All steps before the first one that writes. -/
def prepared (env : SetupEnv) : Except String (Params × Config) := do
  let b ← (Bundle.load env.pki env.bundleFile).mapError ("loading bundle: " ++ ·)
  let synthetic ← env.contract.mapError ("loading contract: " ++ ·)
  let cn ← (b.caIssuerCN env.pki).mapError ("extracting CA issuer CN: " ++ ·)
  let cert ← (b.parseCACert env.pki).mapError ("parsing CA cert: " ++ ·)
  let identity ← env.identity b
  if let some e := env.stateDir then throw ("getting state directory: " ++ e)
  if let some e := env.mkdir then throw ("creating state directory: " ++ e)
  return (env.params b.clientID cn cert identity, env.config b.clientID cn synthetic)

end SetupEnv

/-- The agent's files together with the profile. -/
structure Home where
  disk : Disk
  profile : Option (List Char)

abbrev HomeM := ExceptT String (StateM Home)

def onDisk {α : Type} (m : DiskM α) : HomeM α :=
  ExceptT.mk fun h ↦ ((exec m h.disk).1, { h with disk := (exec m h.disk).2 })

namespace SetupEnv

def document (env : SetupEnv) (p : Params) : List Char :=
  fill (templateData env.uuids (withDefaults p)) profileTemplate

def writeProfile (env : SetupEnv) (p : Params) : HomeM Unit :=
  match generate env.profile env.uuids p with
  | .ok doc => modify fun h ↦ { h with profile := some doc }
  | .error e => do
      modify fun h ↦ { h with profile := env.profileLeft.file (env.document p) h.profile }
      throw ("generating mobileconfig: " ++ e)

end SetupEnv

/-- That the profile could not be opened for the user is only a warning. -/
def runSetup (env : SetupEnv) : HomeM Unit :=
  match env.prepared with
  | .error e => throw e
  | .ok (p, cfg) => do
      env.writeProfile p
      onDisk (wrapErr "saving config: " (Disk.saveConfig env.save cfg))

inductive HomeCommand
  | setup (env : SetupEnv)
  | start (env : Disk.StartEnv)
  | stop (env : Disk.StopEnv)

def HomeCommand.run : HomeCommand → HomeM Unit
  | .setup env => runSetup env
  | .start env => onDisk (runStart env)
  | .stop env => onDisk (runStop env)

def Home.step (h : Home) (c : HomeCommand) : Option Home :=
  some (exec c.run h).2

/-! ## Runs of the agent are runs on its files -/

/-- The configuration a setup comes to save. -/
def SetupEnv.saves (env : SetupEnv) : Option Config :=
  match env.prepared with
  | .error _ => none
  | .ok (p, cfg) => ((generate env.profile env.uuids p).toOption).map fun _ ↦ cfg

def HomeCommand.behind : HomeCommand → Option DiskCommand
  | .setup env => env.saves.map (.setup env.save)
  | .start env => some (.start env)
  | .stop env => some (.stop env)

theorem exec_onDisk {α : Type} (m : DiskM α) (h : Home) :
    exec (onDisk m) h = ((exec m h.disk).1, { h with disk := (exec m h.disk).2 }) := rfl

theorem exec_wrapErr_saveConfig (text : String) (error : Option (String × Written))
    (cfg : Config) (d : Disk) :
    (exec (wrapErr text (Disk.saveConfig error cfg)) d).2 =
      (exec (Disk.saveConfig error cfg) d).2 := by
  rcases exec_cases (Disk.saveConfig error cfg) d with ⟨a, d', h⟩ | ⟨e, d', h⟩
  · rw [wrapErr, exec_tryCatch_of_ok h, h]
  · rw [wrapErr, exec_tryCatch_of_error h, exec_throw, h]

section Runs

variable {env : SetupEnv} {p : Params} {cfg : Config}

theorem exec_runSetup {doc : List Char} (hprepared : env.prepared = .ok (p, cfg))
    (hgenerate : generate env.profile env.uuids p = .ok doc) (h : Home) :
    exec (runSetup env) h =
      ((exec (wrapErr "saving config: " (Disk.saveConfig env.save cfg)) h.disk).1,
        ⟨(exec (Disk.saveConfig env.save cfg) h.disk).2, some doc⟩) := by
  have hprofile : exec (env.writeProfile p) h = (.ok (), { h with profile := some doc }) := by
    rw [SetupEnv.writeProfile, hgenerate]
    rfl
  rw [runSetup, hprepared]
  simp only
  rw [exec_bind_of_ok hprofile, exec_onDisk, exec_wrapErr_saveConfig]

theorem disk_runSetup_of_error {e : String} (hprepared : env.prepared = .ok (p, cfg))
    (hgenerate : generate env.profile env.uuids p = .error e) (h : Home) :
    (exec (runSetup env) h).2.disk = h.disk := by
  have hprofile : exec (env.writeProfile p) h = (.error ("generating mobileconfig: " ++ e),
      { h with profile := env.profileLeft.file (env.document p) h.profile }) := by
    rw [SetupEnv.writeProfile, hgenerate]
    rfl
  rw [runSetup, hprepared]
  simp only
  rw [exec_bind_of_error hprofile]

theorem step_home (h : Home) (c : HomeCommand) (h' : Home) (hstep : h.step c = some h') :
    play Disk.step h.disk c.behind.toList = some h'.disk := by
  cases hstep
  cases c with
  | start env => rfl
  | stop env => rfl
  | setup env =>
      rw [HomeCommand.run, HomeCommand.behind, SetupEnv.saves]
      rcases hprepared : env.prepared with e | ⟨p, cfg⟩
      · rw [runSetup, hprepared]
        rfl
      · rcases hgenerate : generate env.profile env.uuids p with e | doc
        · rw [disk_runSetup_of_error hprepared hgenerate]
          simp only [hgenerate, Except.toOption, Option.map_none, Option.toList_none, play]
        · rw [exec_runSetup hprepared hgenerate]
          simp only [hgenerate, Except.toOption, Option.map_some, Option.toList_some]
          rfl

end Runs

/-- A full run of the agent, with all steps of each setup and whatever they
meet, is a run on its files in which a setup is the saving of a configuration. -/
theorem agent_runs_on_files (h h' : Home) (cs : List HomeCommand)
    (hplay : play Home.step h cs = some h') :
    play Disk.step h.disk (project Home.step (fun _ c ↦ c.behind) h cs) = some h'.disk :=
  play_project Home.disk _ step_home hplay

/-- Every text that is not empty is a certificate. -/
def demoPki : Pki where
  pemDecode := fun s ↦ if s = "" then none else some []
  pemDecode_empty := rfl
  parseCertificate := fun _ ↦ .ok ⟨[0x30#8], "Prototype CA"⟩

def demoSetup : SetupEnv where
  pki := demoPki
  serverIP := "203.0.113.7"
  dnsIP := "fd00::53"
  bundleFile := .ok (demoClient "laptop").bundleJson
  contract := .ok "fd00:abcd::/32"
  generateP12 := fun _ ↦ .error "openssl not found"
  readP12 := .error "no such file or directory"
  stateDir := none
  mkdir := none
  uuids := nilUuids
  profile := ⟨none, none⟩
  profileLeft := .old
  save := none

theorem agent_runs_on_files_demo :
    ∃ h, play Home.step ⟨demoDisk, none⟩ [.setup demoSetup, .start (demoDiskStart none)] =
        some h ∧ (h.disk.dns "Wi-Fi").val = ["fd00::53"] ∧
      play Disk.step demoDisk (project Home.step (fun _ c ↦ c.behind) ⟨demoDisk, none⟩
        [.setup demoSetup, .start (demoDiskStart none)]) = some h.disk := by
  have hrun : (play Home.step ⟨demoDisk, none⟩
      [.setup demoSetup, .start (demoDiskStart none)]).map (fun h ↦ (h.disk.dns "Wi-Fi").val) =
      some ["fd00::53"] := by
    decide +kernel
  obtain ⟨h, hplay, hdns⟩ := Option.map_eq_some_iff.mp hrun
  exact ⟨h, hplay, hdns, agent_runs_on_files ⟨demoDisk, none⟩ h _ hplay⟩

/-! ## Installing an issued client -/

/-- The certificates of the client are read as certificates, that of the CA as
the given one. -/
structure Pki.Accepts (pki : Pki) (k : Client) (cert : Certificate) : Prop where
  ca : ∃ block, pki.pemDecode k.bundle.caCertPEM = some block ∧
    pki.parseCertificate block = .ok cert
  cn : cert.subjectCN ≠ ""
  clientCert : (pki.pemDecode k.bundle.clientCertPEM).isNone = false
  clientKey : (pki.pemDecode k.bundle.clientKeyPEM).isNone = false

/-- A setup that meets no error. -/
structure SetupEnv.Quiet (env : SetupEnv) (synthetic : String) : Prop where
  contract : env.contract = .ok synthetic
  stateDir : env.stateDir = none
  mkdir : env.mkdir = none
  opening : env.profile.opening = none
  writing : env.profile.writing = none
  save : env.save = none

/-- A client with a name that is plain in the bundle and in the profile. -/
structure Client.Issued (k : Client) : Prop where
  plain : ∀ c ∈ k.clientId, isPlain c = true
  nonempty : k.clientId ≠ []
  identity : k.p12 ≠ []

section Installing

variable {pki : Pki} {k : Client} {cert : Certificate}

theorem Pki.Accepts.parseCACert (h : pki.Accepts k cert) :
    k.bundle.parseCACert pki = .ok cert := by
  obtain ⟨block, hblock, hparse⟩ := h.ca
  rw [Bundle.parseCACert, hblock]
  simp only
  rw [hparse]
  rfl

theorem Pki.ne_empty {s : String} (h : (pki.pemDecode s).isNone = false) : s ≠ "" := by
  rintro rfl
  rw [pki.pemDecode_empty] at h
  cases h

theorem ofList_ne_empty {s : List Char} (h : s ≠ []) : String.ofList s ≠ "" := by
  intro hempty
  have hlist := congrArg String.toList hempty
  rw [String.toList_ofList] at hlist
  exact h hlist

theorem load_issued (hk : k.Issued) (h : pki.Accepts k cert) :
    Bundle.load pki (.ok k.bundleJson) = .ok k.bundle := by
  have hca : k.bundle.caCertPEM ≠ "" := by
    obtain ⟨block, hblock, -⟩ := h.ca
    exact Pki.ne_empty (by rw [hblock]; rfl)
  have hid : k.bundle.clientID ≠ "" := ofList_ne_empty hk.nonempty
  have hvalid : k.bundle.validate pki = .ok () := by
    simp [Bundle.validate, hca, Pki.ne_empty h.clientCert, Pki.ne_empty h.clientKey, hid,
      h.parseCACert, h.clientCert, h.clientKey, Except.mapError]
  simp [Bundle.load, k.readBundle_of_plain hk.plain, hvalid, Except.mapError, bind, Except.bind,
    pure, Except.pure]

theorem encode_ne_nil {bytes : List Byte} (h : bytes ≠ []) : Base64.encode bytes ≠ [] := by
  intro hnil
  have hdecode := Base64.decode_encode bytes
  rw [hnil] at hdecode
  exact h (Option.some.inj hdecode).symm

theorem hasPKCS12_issued (hk : k.Issued) : k.bundle.hasPKCS12 = true := by
  have hdata : k.bundle.pkcs12B64 ≠ "" := ofList_ne_empty (encode_ne_nil hk.identity)
  have hpassword : k.bundle.pkcs12Password ≠ "" := by
    refine ofList_ne_empty fun hnil ↦ ?_
    have hlen := congrArg List.length hnil
    simp [encodeHex] at hlen
  simp [Bundle.hasPKCS12, hdata, hpassword]

theorem decodePKCS12_issued (hk : k.Issued) : k.bundle.decodePKCS12 = .ok k.p12 := by
  have hlines : (Base64.encode k.p12).filter (fun c ↦ c ≠ '\r' && c ≠ '\n') =
      Base64.encode k.p12 := by
    refine List.filter_eq_self.mpr fun c hc ↦ ?_
    have hplain := (isPlain_iff.mp (isPlain_of_mem_encode hc)).2.2
    have hr : c ≠ '\r' := by
      rintro rfl
      exact absurd hplain (by decide)
    have hn : c ≠ '\n' := by
      rintro rfl
      exact absurd hplain (by decide)
    simp [hr, hn]
  have hdecode : Base64.decode (k.bundle.pkcs12B64.toList.filter
      fun c ↦ c ≠ '\r' && c ≠ '\n') = some k.p12 := by
    rw [Client.bundle, String.toList_ofList, hlines, Base64.decode_encode]
  rw [Bundle.decodePKCS12, if_pos (hasPKCS12_issued hk), hdecode]

/-- The parameters of the profile of an issued client. -/
def SetupEnv.issuedParams (env : SetupEnv) (k : Client) (cert : Certificate) : Params :=
  env.params k.bundle.clientID cert.subjectCN cert (k.p12, k.bundle.pkcs12Password)

def SetupEnv.issuedConfig (env : SetupEnv) (k : Client) (cert : Certificate)
    (synthetic : String) : Config :=
  env.config k.bundle.clientID cert.subjectCN synthetic

variable {env : SetupEnv} {synthetic : String}

theorem prepared_issued (hk : k.Issued) (h : env.pki.Accepts k cert)
    (hfile : env.bundleFile = .ok k.bundleJson) (hquiet : env.Quiet synthetic) :
    env.prepared = .ok (env.issuedParams k cert, env.issuedConfig k cert synthetic) := by
  have hcn : k.bundle.caIssuerCN env.pki = .ok cert.subjectCN := by
    simp [Bundle.caIssuerCN, h.parseCACert, h.cn, bind, Except.bind, pure, Except.pure]
  have hidentity : env.identity k.bundle = .ok (k.p12, k.bundle.pkcs12Password) := by
    simp [SetupEnv.identity, hasPKCS12_issued hk, decodePKCS12_issued hk, Except.mapError]
  simp [SetupEnv.prepared, hfile, load_issued hk h, hquiet.contract, hcn, h.parseCACert,
    hidentity, hquiet.stateDir, hquiet.mkdir, Except.mapError, bind, Except.bind, pure,
    Except.pure, SetupEnv.issuedParams, SetupEnv.issuedConfig]

theorem generate_quiet (hquiet : env.Quiet synthetic) (p : Params) :
    generate env.profile env.uuids p = .ok (env.document p) := by
  simp [generate, hquiet.opening, hquiet.writing, SetupEnv.document, pure, Except.pure]

/-- The whole setup of an issued client. -/
theorem exec_runSetup_issued (hk : k.Issued) (h : env.pki.Accepts k cert)
    (hfile : env.bundleFile = .ok k.bundleJson) (hquiet : env.Quiet synthetic) (home : Home) :
    exec (runSetup env) home = (.ok (),
      ⟨{ home.disk with config := some (env.issuedConfig k cert synthetic).text },
        some (env.document (env.issuedParams k cert))⟩) := by
  rw [exec_runSetup (prepared_issued hk h hfile hquiet) (generate_quiet hquiet _), hquiet.save]
  rfl

/-- A text that is taken into the profile as it is. -/
def ProfileText (s : String) : Prop :=
  s.toList.all isLegal ∧ MarkupFree s

theorem profileText_of_safe {s : String} (h : ∀ c ∈ s.toList, isSafe c) : ProfileText s := by
  obtain ⟨hplain, hlegal⟩ := plain_of_safe h
  exact ⟨List.all_eq_true.mpr hlegal, (plain_iff_markupFree s).mp hplain⟩

theorem document_carries (hserver : ProfileText env.serverIP)
    (hid : ProfileText k.bundle.clientID) (hcn : ProfileText cert.subjectCN) :
    CarriesParams env.uuids (env.issuedParams k cert)
      (env.document (env.issuedParams k cert)) := by
  have hname : ProfileText setupProfileName :=
    profileText_of_safe (List.all_eq_true.mp (by decide +kernel))
  have hpassword : ProfileText k.bundle.pkcs12Password := by
    refine profileText_of_safe ?_
    rw [Client.bundle, String.toList_ofList]
    exact isSafe_encodeHex
  have hset : setupProfileName ≠ "" := by decide
  have hdefault : withDefaults (env.issuedParams k cert) = env.issuedParams k cert := if_neg hset
  have htexts : ∀ s ∈ (env.issuedParams k cert).strings, ProfileText s := by
    intro s hs
    simp only [Params.strings, SetupEnv.issuedParams, SetupEnv.params, List.mem_cons,
      List.not_mem_nil, or_false] at hs
    rcases hs with rfl | rfl | rfl | rfl | rfl
    · exact hserver
    · exact hid
    · exact hcn
    · exact hpassword
    · exact hname
  rw [SetupEnv.document, hdefault]
  exact carriesParams_of_markupFree (fun s hs ↦ (htexts s hs).1) fun s hs ↦ (htexts s hs).2

end Installing

theorem exec_command_of_ne_setup {c : HomeCommand} (hc : ∀ env, c ≠ .setup env) (h : Home) :
    (exec c.run h).2.disk.config = h.disk.config ∧ (exec c.run h).2.profile = h.profile := by
  cases c with
  | setup env => exact absurd rfl (hc env)
  | start env => exact ⟨(Disk.keeps_runStart env).config_eq h.disk, rfl⟩
  | stop env => exact ⟨(Disk.keeps_runStop env).config_eq h.disk, rfl⟩

/-- The bundle that was written for a client is enough to install it: the setup
succeeds, the profile carries the client's own name and identity, and until the
next setup every start that succeeds sets the DNS server given to this one. -/
theorem issued_client_is_installed (k : Client) (cert : Certificate) (env : SetupEnv)
    (synthetic : String) (home : Home) (hk : k.Issued) (hpki : env.pki.Accepts k cert)
    (hfile : env.bundleFile = .ok k.bundleJson) (hquiet : env.Quiet synthetic)
    (htexts : ∀ s ∈ [env.serverIP, k.bundle.clientID, cert.subjectCN], ProfileText s) :
    ∃ installed doc, exec (runSetup env) home = (.ok (), installed) ∧
      installed.profile = some doc ∧
      CarriesParams env.uuids ⟨env.serverIP, String.ofList k.clientId, cert.subjectCN, cert.raw,
        k.p12, String.ofList (encodeHex k.password.toList), setupProfileName⟩ doc ∧
      ∀ cs later, (∀ c ∈ cs, ∀ env, c ≠ .setup env) → play Home.step installed cs = some later →
        later.profile = some doc ∧ ∀ start d,
          exec (runStart start) later.disk = (.ok (), d) → ∃ service,
            start.backupService = .ok service ∧ d.dns = Function.update later.disk.dns service
              (networksetupServers [env.dnsIP]) := by
  have hcarries : CarriesParams env.uuids (env.issuedParams k cert)
      (env.document (env.issuedParams k cert)) :=
    document_carries (htexts _ (by simp)) (htexts _ (by simp)) (htexts _ (by simp))
  refine ⟨_, _, exec_runSetup_issued hk hpki hfile hquiet home, rfl, hcarries, ?_⟩
  intro cs later hcs hplay
  -- Starts and stops keep the profile and the configuration.
  have hkept : later.disk.config = some (env.issuedConfig k cert synthetic).text ∧
      later.profile = some (env.document (env.issuedParams k cert)) := by
    refine play_invariant_along (fun _ c ↦ ∀ env, c ≠ HomeCommand.setup env)
      (fun h ↦ h.disk.config = some (env.issuedConfig k cert synthetic).text ∧
        h.profile = some (env.document (env.issuedParams k cert))) ?_ ⟨rfl, rfl⟩
      (along_of_forall hcs _) hplay
    intro h c h' hh hc hstep
    cases hstep
    obtain ⟨hconfig, hprofile⟩ := exec_command_of_ne_setup hc h
    exact ⟨hconfig.trans hh.1, hprofile.trans hh.2⟩
  refine ⟨hkept.2, fun start d hstart ↦ ?_⟩
  obtain ⟨cfg, service, hload, hservice, rfl⟩ := Disk.runStart_ok hstart
  have hread := Disk.configOf_of_loadedConfig hload
  rw [hkept.1, Disk.configOf, readConfig_text] at hread
  cases hread
  exact ⟨service, hservice, rfl⟩

theorem issued_client_is_installed_demo :
    ∃ installed doc, exec (runSetup demoSetup) ⟨demoDisk, none⟩ = (.ok (), installed) ∧
      installed.profile = some doc ∧
      CarriesParams demoSetup.uuids ⟨"203.0.113.7", "laptop", "Prototype CA", [0x30#8],
        [1, 2, 3], String.ofList (encodeHex (demoClient "laptop").password.toList),
        setupProfileName⟩ doc := by
  have hk : (demoClient "laptop").Issued :=
    ⟨List.all_eq_true.mp (by decide +kernel), by decide +kernel, by decide +kernel⟩
  have hpki : demoSetup.pki.Accepts (demoClient "laptop") ⟨[0x30#8], "Prototype CA"⟩ :=
    ⟨⟨[], by decide +kernel, rfl⟩, by decide +kernel, by decide +kernel, by decide +kernel⟩
  have hquiet : demoSetup.Quiet "fd00:abcd::/32" := ⟨rfl, rfl, rfl, rfl, rfl, rfl⟩
  have hsafe (s : String) (h : s.toList.all isSafe = true) : ProfileText s :=
    profileText_of_safe (List.all_eq_true.mp h)
  have htexts : ∀ s ∈ [demoSetup.serverIP, (demoClient "laptop").bundle.clientID, "Prototype CA"],
      ProfileText s := by
    intro s hs
    simp only [List.mem_cons, List.not_mem_nil, or_false] at hs
    rcases hs with rfl | rfl | rfl
    · exact hsafe _ (by decide +kernel)
    · exact hsafe _ (by decide +kernel)
    · exact hsafe _ (by decide +kernel)
  obtain ⟨installed, doc, hexec, hprofile, hcarries, -⟩ :=
    issued_client_is_installed (demoClient "laptop") ⟨[0x30#8], "Prototype CA"⟩ demoSetup
      "fd00:abcd::/32" ⟨demoDisk, none⟩ hk hpki rfl hquiet htexts
  exact ⟨installed, doc, hexec, hprofile, hcarries⟩

end PrototypeNet
