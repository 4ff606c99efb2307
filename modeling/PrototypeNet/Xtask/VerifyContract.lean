import PrototypeNet.Lib.ConfigText

/-!
# Checking the configuration files

`cargo xtask verify-contract` looks for nine texts in five files: what the
contract's constants should look like in the client's files, and placeholders
in two templates.  It does not read the files as what they are.  The main
result says when a passed check means that the client's settings are those of
the contract.
-/

namespace PrototypeNet

open ConfigText

/-! ## The command -/

/-- The constants of `contract.toml` that are checked. -/
structure Contract where
  syntheticPrefixCidr : String
  ifId : BitVec 32
  deriving DecidableEq, Repr

/-- What the command meets: the root that `cargo` reports, the contents of
files by their path below it, and the parser of the contract. -/
structure Workspace where
  root : Except (List String) String
  read : String → Except String String
  parse : String → Except String Contract

/-- A file, the text expected in it, and what the text is. -/
structure Check where
  relPath : String
  pattern : String
  description : String
  deriving DecidableEq, Repr

def placeholder (name : String) : String :=
  "\x7b\x7b " ++ name ++ " \x7d\x7d"

def placeholderCheck (relPath name : String) : Check where
  relPath := relPath
  pattern := placeholder name
  description := "Jinja2 " ++ placeholder name ++ " placeholder"

def ifIdText (c : Contract) : String :=
  toString c.ifId.toNat

def checks (c : Contract) : List Check :=
  [⟨"client/swanctl.conf", "local_ts = " ++ c.syntheticPrefixCidr, "local_ts synthetic prefix"⟩,
    ⟨"client/swanctl.conf", "if_id_in = " ++ ifIdText c, "if_id_in"⟩,
    ⟨"client/swanctl.conf", "if_id_out = " ++ ifIdText c, "if_id_out"⟩,
    ⟨"client/entrypoint.sh", "if_id " ++ ifIdText c ++ " dev eth0", "xfrm if_id in ip link add"⟩,
    placeholderCheck "ansible/roles/prototype_net/templates/swanctl.conf.j2" "vip_pool_start",
    placeholderCheck "ansible/roles/prototype_net/templates/swanctl.conf.j2" "vip_pool_end",
    placeholderCheck "ansible/roles/prototype_net/templates/swanctl.conf.j2"
      "synthetic_prefix_cidr",
    placeholderCheck "ansible/roles/prototype_net/templates/swanctl.conf.j2" "xfrm_if_id",
    placeholderCheck "ansible/roles/prototype_net/templates/prototype-xfrm0.service.j2"
      "xfrm_if_id"]

/-- The error an unsuccessful check reports. -/
def checkFailure (read : String → Except String String) (check : Check) : Option String :=
  match read check.relPath with
  | .error e => some ("ERROR: " ++ check.relPath ++ " — could not read file: " ++ e)
  | .ok content =>
      if check.pattern.toList <:+: content.toList then none
      else some ("ERROR: " ++ check.relPath ++ " — expected pattern not found (" ++
        check.description ++ ")\n  " ++ check.pattern)

/-- An error is given with its contexts, outermost first. -/
def loadContract (ws : Workspace) : Except (List String) Contract := do
  let root ← ws.root
  let src ← (ws.read "contract.toml").mapError fun e ↦
    ["cannot read " ++ root ++ "/contract.toml", e]
  (ws.parse src).mapError fun e ↦ ["failed to parse contract.toml", e]

structure Report where
  stderr : List String
  result : Except (List String) Unit

def reportOf (checks : List Check) (failures : List String) : Report :=
  if failures.isEmpty then
    ⟨["verify-contract: all checks passed (" ++ toString checks.length ++ " files)."], .ok ()⟩
  else
    ⟨failures, .error ["verify-contract: " ++ toString failures.length ++
      " check(s) failed — update the config files or contract.toml"]⟩

def verifyContract (ws : Workspace) : Report :=
  match loadContract ws with
  | .error chain => ⟨[], .error chain⟩
  | .ok c => reportOf (checks c) ((checks c).filterMap (checkFailure ws.read))

/-! ## What a passed check should mean -/

/-- The file sets the key, and only to this value. -/
def SettingIs (text key value : List Char) : Prop :=
  (key, value) ∈ settings text ∧ ∀ v, (key, v) ∈ settings text → v = value

/-- The script gives the option of the command this value, and no other. -/
def OptionIs (command : List Word) (option value : Word) (script : List Char) : Prop :=
  (∃ arguments, command ++ arguments ∈ commands script ∧ value ∈ valuesOf option arguments) ∧
    ∀ v ∈ optionValues command option script, v = value

def ipLinkAdd : List Word :=
  ["ip".toList, "link".toList, "add".toList]

/-- The client's files say what the contract says. -/
structure ClientMatches (c : Contract) (swanctl entrypoint : String) : Prop where
  localTs : SettingIs swanctl.toList "local_ts".toList c.syntheticPrefixCidr.toList
  ifIdIn : SettingIs swanctl.toList "if_id_in".toList (ifIdText c).toList
  ifIdOut : SettingIs swanctl.toList "if_id_out".toList (ifIdText c).toList
  linkIfId : OptionIs ipLinkAdd "if_id".toList (ifIdText c).toList entrypoint.toList

/-- A successful run means that the client matches the contract. -/
def VerifySound (ws : Workspace) : Prop :=
  (verifyContract ws).result = .ok () →
    ∃ c swanctl entrypoint, loadContract ws = .ok c ∧
      ws.read "client/swanctl.conf" = .ok swanctl ∧
      ws.read "client/entrypoint.sh" = .ok entrypoint ∧ ClientMatches c swanctl entrypoint

/-! ## Files that are written plainly -/

/-- The key with its equals sign stands only where a statement begins, and the
key is set at most once, to a value of no more than `length` characters. -/
structure SetPlainly (text key : List Char) (length : ℕ) : Prop where
  starts : StartsStatement text (key ++ " = ".toList)
  once : ((settings text).filter (·.1 = key)).length ≤ 1
  short : ∀ s ∈ settings text, s.1 = key → s.2.length ≤ length

instance (text key : List Char) (length : ℕ) : Decidable (SetPlainly text key length) :=
  decidable_of_iff (StartsStatement text (key ++ " = ".toList) ∧
      ((settings text).filter (·.1 = key)).length ≤ 1 ∧
      ∀ s ∈ settings text, s.1 = key → s.2.length ≤ length)
    ⟨fun h ↦ ⟨h.1, h.2.1, h.2.2⟩, fun h ↦ ⟨h.1, h.2, h.3⟩⟩

/-- Nothing in the client's files but one setting or one option could be taken
for what the command looks for, and no value there is longer than it should be. -/
structure PlainlyWritten (c : Contract) (swanctl entrypoint : String) : Prop where
  cidr : Open c.syntheticPrefixCidr.toList ∧
    strip c.syntheticPrefixCidr.toList = c.syntheticPrefixCidr.toList
  localTs : SetPlainly swanctl.toList "local_ts".toList c.syntheticPrefixCidr.toList.length
  ifIdIn : SetPlainly swanctl.toList "if_id_in".toList (ifIdText c).toList.length
  ifIdOut : SetPlainly swanctl.toList "if_id_out".toList (ifIdText c).toList.length
  link : InCommand ipLinkAdd entrypoint.toList "if_id ".toList
  linkOnce : (optionValues ipLinkAdd "if_id".toList entrypoint.toList).length ≤ 1

/-! ## When a passed check can be trusted -/

/-- The text that a check looks for is somewhere in its file. -/
def Check.Passes (read : String → Except String String) (check : Check) : Prop :=
  ∃ content, read check.relPath = .ok content ∧ check.pattern.toList <:+: content.toList

theorem checkFailure_eq_none_iff {read : String → Except String String} {check : Check} :
    checkFailure read check = none ↔ check.Passes read := by
  unfold checkFailure Check.Passes
  cases hread : read check.relPath with
  | error e => simp
  | ok content => simp

/-- The loop reports no failure just if every check passes. -/
theorem failures_eq_nil_iff {read : String → Except String String} {checks : List Check} :
    checks.filterMap (checkFailure read) = [] ↔ ∀ check ∈ checks, check.Passes read := by
  rw [List.filterMap_eq_nil_iff]
  exact forall₂_congr fun check _ ↦ checkFailure_eq_none_iff

theorem reportOf_ok_iff {checks : List Check} {failures : List String} :
    (reportOf checks failures).result = .ok () ↔ failures = [] := by
  cases failures <;> simp [reportOf]

theorem verifyContract_ok_iff {ws : Workspace} :
    (verifyContract ws).result = .ok () ↔
      ∃ c, loadContract ws = .ok c ∧ ∀ check ∈ checks c, check.Passes ws.read := by
  unfold verifyContract
  cases hload : loadContract ws with
  | error chain => simp
  | ok c =>
      constructor
      · intro h
        exact ⟨c, rfl, failures_eq_nil_iff.mp (reportOf_ok_iff.mp h)⟩
      · rintro ⟨c', hc, h⟩
        cases hc
        exact reportOf_ok_iff.mpr (failures_eq_nil_iff.mpr h)

/-- The texts the four checks of the client's files have found. -/
theorem exists_client_files {ws : Workspace} {c : Contract}
    (h : ∀ check ∈ checks c, check.Passes ws.read) :
    ∃ swanctl entrypoint, ws.read "client/swanctl.conf" = .ok swanctl ∧
      ws.read "client/entrypoint.sh" = .ok entrypoint ∧
      "local_ts = ".toList ++ c.syntheticPrefixCidr.toList <:+: swanctl.toList ∧
      "if_id_in = ".toList ++ (ifIdText c).toList <:+: swanctl.toList ∧
      "if_id_out = ".toList ++ (ifIdText c).toList <:+: swanctl.toList ∧
      "if_id ".toList ++ (ifIdText c).toList ++ " dev eth0".toList <:+: entrypoint.toList := by
  have hin (check : Check) (hmem : check ∈ checks c) := h check hmem
  obtain ⟨swanctl, hread, hlocal⟩ := hin ⟨"client/swanctl.conf",
    "local_ts = " ++ c.syntheticPrefixCidr, "local_ts synthetic prefix"⟩ (by simp [checks])
  obtain ⟨swanctl₁, hread₁, hifIn⟩ := hin ⟨"client/swanctl.conf",
    "if_id_in = " ++ ifIdText c, "if_id_in"⟩ (by simp [checks])
  obtain ⟨swanctl₂, hread₂, hifOut⟩ := hin ⟨"client/swanctl.conf",
    "if_id_out = " ++ ifIdText c, "if_id_out"⟩ (by simp [checks])
  obtain ⟨entrypoint, hentry, hlink⟩ := hin ⟨"client/entrypoint.sh",
    "if_id " ++ ifIdText c ++ " dev eth0", "xfrm if_id in ip link add"⟩ (by simp [checks])
  cases hread.symm.trans hread₁
  cases hread.symm.trans hread₂
  simp only [String.toList_append] at hlocal hifIn hifOut hlink
  exact ⟨swanctl, entrypoint, hread, hentry, hlocal, hifIn, hifOut, hlink⟩

theorem eq_of_length_le_one {α : Type} {l : List α} (h : l.length ≤ 1) {a b : α} (ha : a ∈ l)
    (hb : b ∈ l) : a = b := by
  match l, h with
  | [x], _ => rw [List.mem_singleton.mp ha, List.mem_singleton.mp hb]

theorem ifIdText_ordinary (c : Contract) : (ifIdText c).toList.all isOrdinary := by
  rw [ifIdText, Nat.toString_eq_ofList_toDigits, String.toList_ofList, List.all_eq_true]
  intro d hd
  simp [isOrdinary, Char.isAlphanum, Nat.isDigit_of_mem_toDigits (by decide) (by decide) hd]

theorem ifIdText_ne_nil (c : Contract) : (ifIdText c).toList ≠ [] := by
  simp [ifIdText]

section Client

variable {text key value script : List Char}

/-- Where the key is set plainly, the text that was found is its setting. -/
theorem SetPlainly.settingIs (h : SetPlainly text key value.length)
    (hkey : key ∈ ["local_ts".toList, "if_id_in".toList, "if_id_out".toList])
    (hopen : Open value) (hstrip : strip value = value)
    (hfound : key ++ " = ".toList ++ value <:+: text) : SettingIs text key value := by
  have hkeys : ∀ key ∈ ["local_ts".toList, "if_id_in".toList, "if_id_out".toList],
      strip key = key ∧ Open key ∧ '=' ∉ key := by decide
  obtain ⟨hname, hnameOpen, hequals⟩ := hkeys key hkey
  obtain ⟨more, hmem⟩ := mem_settings_of_infix hname hnameOpen hequals hopen h.starts hfound
  rw [strip_append_eq hstrip (h.short _ hmem rfl)] at hmem
  refine ⟨hmem, fun v hv ↦ ?_⟩
  have hfilter (u : List Char) (hu : (key, u) ∈ settings text) :
      (key, u) ∈ (settings text).filter (·.1 = key) :=
    List.mem_filter.mpr ⟨hu, decide_eq_true rfl⟩
  exact congrArg Prod.snd (eq_of_length_le_one h.once (hfilter v hv) (hfilter value hmem))

/-- Where the option stands in its command only, the text that was found is one
of its uses. -/
theorem optionIs_of_infix (hin : InCommand ipLinkAdd script "if_id ".toList)
    (honce : (optionValues ipLinkAdd "if_id".toList script).length ≤ 1)
    (hvalue : value.all isOrdinary) (hne : value ≠ [])
    (hfound : "if_id ".toList ++ value ++ " dev eth0".toList <:+: script) :
    OptionIs ipLinkAdd "if_id".toList value script := by
  have hfound : "if_id".toList ++ ' ' :: (value ++ ' ' :: "dev eth0".toList) <:+: script := by
    simpa using hfound
  obtain ⟨arguments, hmem, huse⟩ :=
    exists_option_of_infix hin (by decide) (by decide) hvalue hne hfound
  refine ⟨⟨arguments, hmem, huse⟩, fun v hv ↦ ?_⟩
  exact eq_of_length_le_one honce hv (mem_optionValues (by decide) hmem huse)

end Client

theorem clientMatches_of_found {c : Contract} {swanctl entrypoint : String}
    (h : PlainlyWritten c swanctl entrypoint)
    (hlocal : "local_ts = ".toList ++ c.syntheticPrefixCidr.toList <:+: swanctl.toList)
    (hifIn : "if_id_in = ".toList ++ (ifIdText c).toList <:+: swanctl.toList)
    (hifOut : "if_id_out = ".toList ++ (ifIdText c).toList <:+: swanctl.toList)
    (hlink : "if_id ".toList ++ (ifIdText c).toList ++ " dev eth0".toList <:+: entrypoint.toList) :
    ClientMatches c swanctl entrypoint := by
  have hordinary := ifIdText_ordinary c
  have hopen := open_of_ordinary hordinary
  have hstrip := strip_of_ordinary hordinary
  refine ⟨?_, ?_, ?_, ?_⟩
  · exact h.localTs.settingIs (by simp) h.cidr.1 h.cidr.2 (by simpa using hlocal)
  · exact h.ifIdIn.settingIs (by simp) hopen hstrip (by simpa using hifIn)
  · exact h.ifIdOut.settingIs (by simp) hopen hstrip (by simpa using hifOut)
  · exact optionIs_of_infix h.link h.linkOnce hordinary (ifIdText_ne_nil c) hlink

/-- A child of the client's configuration, as the repository has it but for
`if_id_in`. -/
def clientSwanctl (ifIdIn : String) : String :=
  "prototype \x7b\n    # Traffic selectors\n    local_ts = fd00:abcd::/32\n    if_id_in = " ++
    ifIdIn ++ "\n    if_id_out = 1\n\x7d\n"

def clientEntrypoint : String :=
  "# XFRM interface for if_id=1\nip link add xfrm0 type xfrm if_id 1 dev eth0\n"

def clientRead (ifIdIn path : String) : Except String String :=
  if path = "contract.toml" then
    .ok "[address]\nsynthetic_prefix_cidr = \"fd00:abcd::/32\"\n[xfrm]\nif_id = 1\n"
  else if path = "client/swanctl.conf" then .ok (clientSwanctl ifIdIn)
  else if path = "client/entrypoint.sh" then .ok clientEntrypoint
  else .ok (placeholder "vip_pool_start" ++ placeholder "vip_pool_end" ++
    placeholder "synthetic_prefix_cidr" ++ placeholder "xfrm_if_id")

def clientContract : Contract :=
  ⟨"fd00:abcd::/32", 1⟩

def clientWorkspace (ifIdIn : String) : Workspace where
  root := .ok "/src"
  read := clientRead ifIdIn
  parse := fun _ ↦ .ok clientContract

theorem loadContract_client (ifIdIn : String) :
    loadContract (clientWorkspace ifIdIn) = .ok clientContract := rfl

theorem read_swanctl (ifIdIn : String) :
    (clientWorkspace ifIdIn).read "client/swanctl.conf" = .ok (clientSwanctl ifIdIn) := rfl

theorem read_entrypoint (ifIdIn : String) :
    (clientWorkspace ifIdIn).read "client/entrypoint.sh" = .ok clientEntrypoint := rfl

theorem verify_client_ok : ∀ ifIdIn ∈ ["1", "10"],
    (verifyContract (clientWorkspace ifIdIn)).result = .ok () := by
  have hpass : ∀ ifIdIn ∈ ["1", "10"],
      (checks clientContract).filterMap (checkFailure (clientRead ifIdIn)) = [] := by
    decide +kernel
  exact fun ifIdIn h ↦
    verifyContract_ok_iff.mpr ⟨_, loadContract_client _, failures_eq_nil_iff.mp (hpass ifIdIn h)⟩

end PrototypeNet
