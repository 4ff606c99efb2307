import PrototypeNet.Lib.Base64
import PrototypeNet.Lib.XmlTemplate

/-!
# The configuration profile

`setup` of the macOS agent writes a configuration profile with the CA
certificate, the client's identity and the VPN settings.  The document is a
template whose fields are filled with the parameters, as they are; the texts of
the identifiers and what the file system answers are given.
-/

namespace PrototypeNet

open ByteWords Xml

/-- All inputs needed to generate the profile. -/
structure Params where
  serverIP : String
  clientID : String
  caIssuerCN : String
  caCertDER : List Byte
  pkcs12Data : List Byte
  pkcs12Password : String
  profileName : String
  deriving DecidableEq, Repr

def defaultProfileName : String :=
  "prototype-net"

/-! ## Identifiers -/

def hexChar (n : ℕ) : Char :=
  if n < 10 then Char.ofNat (n + 48) else Char.ofNat (n + 87)

def encodeHex (bytes : List Byte) : List Char :=
  bytes.flatMap fun b ↦ [hexChar (b.toNat / 16), hexChar (b.toNat % 16)]

def uuidChars : List Char :=
  ['0', '1', '2', '3', '4', '5', '6', '7', '8', '9', 'a', 'b', 'c', 'd', 'e', 'f', '-']

/-- The text of a new identifier.  It comes from a library; only its characters
matter. -/
structure Uuid where
  text : List Char
  chars : text.all uuidChars.contains

structure ProfileUuids where
  profile : Uuid
  caPayload : Uuid
  identityPayload : Uuid
  vpnPayload : Uuid

/-! ## The template -/

/-- The fields of the flat record that is passed to the template. -/
inductive TemplateField
  | profileName
  | profileUUID
  | caPayloadUUID
  | identityPayloadUUID
  | vpnPayloadUUID
  | serverIP
  | clientID
  | caIssuerCN
  | pkcs12Password
  | caCertB64
  | pkcs12B64
  deriving DecidableEq, Repr

def lit (s : String) : Piece TemplateField :=
  .text s.toList

/-- The template up to its last string: each entry is what stands before a
string, and the string. -/
def profileEntries : List (Entry TemplateField) :=
  [⟨[lit "<?xml version=\"1.0\" encoding=\"UTF-8\"?>\n",
      .text ("<!DOCTYPE plist PUBLIC \"-//Apple//DTD PLIST 1.0//EN\" ".toList ++
        "\"http://www.apple.com/DTDs/PropertyList-1.0.dtd\">\n".toList),
      lit "<plist version=\"1.0\">\n<dict>\n\t<key>PayloadDescription</key>\n\t"],
      [lit "IKEv2 VPN profile for ", .gap .profileName]⟩,
    ⟨[lit "\n\t<key>PayloadDisplayName</key>\n\t"], [.gap .profileName]⟩,
    ⟨[lit "\n\t<key>PayloadIdentifier</key>\n\t"], [lit "net.prototype.", .gap .profileName]⟩,
    ⟨[lit "\n\t<key>PayloadOrganization</key>\n\t"], [lit "prototype-net"]⟩,
    ⟨[lit "\n\t<key>PayloadType</key>\n\t"], [lit "Configuration"]⟩,
    ⟨[lit "\n\t<key>PayloadUUID</key>\n\t"], [.gap .profileUUID]⟩,
    ⟨[lit "\n\t<key>PayloadVersion</key>\n\t<integer>1</integer>\n",
      lit "\t<key>PayloadContent</key>\n\t<array>\n",
      lit "\t\t<!-- Payload 1: CA certificate -->\n\t\t<dict>\n",
      lit "\t\t\t<key>PayloadDisplayName</key>\n\t\t\t"],
      [.gap .profileName, lit " CA"]⟩,
    ⟨[lit "\n\t\t\t<key>PayloadIdentifier</key>\n\t\t\t"],
      [lit "net.prototype.", .gap .profileName, lit ".ca"]⟩,
    ⟨[lit "\n\t\t\t<key>PayloadType</key>\n\t\t\t"], [lit "com.apple.security.root"]⟩,
    ⟨[lit "\n\t\t\t<key>PayloadUUID</key>\n\t\t\t"], [.gap .caPayloadUUID]⟩,
    ⟨[lit "\n\t\t\t<key>PayloadVersion</key>\n\t\t\t<integer>1</integer>\n",
      lit "\t\t\t<key>PayloadContent</key>\n\t\t\t<data>\n",
      .gap .caCertB64,
      lit "\n\t\t\t</data>\n\t\t</dict>\n",
      lit "\t\t<!-- Payload 2: Client identity (PKCS#12) -->\n\t\t<dict>\n",
      lit "\t\t\t<key>Password</key>\n\t\t\t"],
      [.gap .pkcs12Password]⟩,
    ⟨[lit "\n\t\t\t<key>PayloadDisplayName</key>\n\t\t\t"],
      [.gap .profileName, lit " Identity"]⟩,
    ⟨[lit "\n\t\t\t<key>PayloadIdentifier</key>\n\t\t\t"],
      [lit "net.prototype.", .gap .profileName, lit ".identity"]⟩,
    ⟨[lit "\n\t\t\t<key>PayloadType</key>\n\t\t\t"], [lit "com.apple.security.pkcs12"]⟩,
    ⟨[lit "\n\t\t\t<key>PayloadUUID</key>\n\t\t\t"], [.gap .identityPayloadUUID]⟩,
    ⟨[lit "\n\t\t\t<key>PayloadVersion</key>\n\t\t\t<integer>1</integer>\n",
      lit "\t\t\t<key>PayloadContent</key>\n\t\t\t<data>\n",
      .gap .pkcs12B64,
      lit "\n\t\t\t</data>\n\t\t</dict>\n\t\t<!-- Payload 3: IKEv2 VPN -->\n",
      lit "\t\t<dict>\n\t\t\t<key>PayloadDisplayName</key>\n\t\t\t"],
      [.gap .profileName, lit " VPN"]⟩,
    ⟨[lit "\n\t\t\t<key>PayloadIdentifier</key>\n\t\t\t"],
      [lit "net.prototype.", .gap .profileName, lit ".vpn"]⟩,
    ⟨[lit "\n\t\t\t<key>PayloadType</key>\n\t\t\t"], [lit "com.apple.vpn.managed"]⟩,
    ⟨[lit "\n\t\t\t<key>PayloadUUID</key>\n\t\t\t"], [.gap .vpnPayloadUUID]⟩,
    ⟨[lit "\n\t\t\t<key>PayloadVersion</key>\n\t\t\t<integer>1</integer>\n",
      lit "\t\t\t<key>UserDefinedName</key>\n\t\t\t"],
      [.gap .profileName]⟩,
    ⟨[lit "\n\t\t\t<key>VPNType</key>\n\t\t\t"], [lit "IKEv2"]⟩,
    ⟨[lit "\n\t\t\t<key>IKEv2</key>\n\t\t\t<dict>\n",
      lit "\t\t\t\t<key>AuthenticationMethod</key>\n\t\t\t\t"],
      [lit "Certificate"]⟩,
    ⟨[lit "\n\t\t\t\t<key>CertificateType</key>\n\t\t\t\t"], [lit "RSA"]⟩,
    ⟨[lit "\n\t\t\t\t<key>PayloadCertificateUUID</key>\n\t\t\t\t"], [.gap .identityPayloadUUID]⟩,
    ⟨[lit "\n\t\t\t\t<key>RemoteAddress</key>\n\t\t\t\t"], [.gap .serverIP]⟩,
    ⟨[lit "\n\t\t\t\t<key>RemoteIdentifier</key>\n\t\t\t\t"], [.gap .serverIP]⟩,
    ⟨[lit "\n\t\t\t\t<key>LocalIdentifier</key>\n\t\t\t\t"], [.gap .clientID]⟩,
    ⟨[lit "\n\t\t\t\t<key>ServerCertificateIssuerCommonName</key>\n\t\t\t\t"],
      [.gap .caIssuerCN]⟩,
    ⟨[lit "\n\t\t\t\t<key>IKESecurityAssociationParameters</key>\n\t\t\t\t<dict>\n",
      lit "\t\t\t\t\t<key>EncryptionAlgorithm</key>\n\t\t\t\t\t"],
      [lit "AES-256"]⟩,
    ⟨[lit "\n\t\t\t\t\t<key>IntegrityAlgorithm</key>\n\t\t\t\t\t"], [lit "SHA2-256"]⟩,
    ⟨[lit "\n\t\t\t\t\t<key>DiffieHellmanGroup</key>\n",
      lit "\t\t\t\t\t<integer>20</integer>\n\t\t\t\t</dict>\n",
      lit "\t\t\t\t<key>ChildSecurityAssociationParameters</key>\n\t\t\t\t<dict>\n",
      lit "\t\t\t\t\t<key>EncryptionAlgorithm</key>\n\t\t\t\t\t"],
      [lit "AES-256-GCM"]⟩]

def profileEnd : List (Piece TemplateField) :=
  [lit "\n\t\t\t\t\t<key>DiffieHellmanGroup</key>\n",
    lit "\t\t\t\t\t<integer>20</integer>\n\t\t\t\t</dict>\n",
    lit "\t\t\t\t<key>EnablePFS</key>\n\t\t\t\t<true/>\n",
    lit "\t\t\t\t<key>EnableFallback</key>\n\t\t\t\t<false/>\n\t\t\t</dict>\n",
    lit "\t\t</dict>\n\t</array>\n</dict>\n</plist>\n"]

def profileTemplate : List (Piece TemplateField) :=
  template "string".toList profileEntries profileEnd

/-! ## Generating a profile -/

/-- Lines of 76 characters. -/
def wrapLines (encoded : List Char) : List Char :=
  if 76 < encoded.length then encoded.take 76 ++ '\n' :: wrapLines (encoded.drop 76) else encoded
termination_by encoded.length
decreasing_by
  rw [List.length_drop]
  omega

/-- The bytes in base64, wrapped at 76 characters per line. -/
def wrapBase64 (bytes : List Byte) : List Char :=
  wrapLines (Base64.encode bytes)

def withDefaults (p : Params) : Params :=
  if p.profileName = "" then { p with profileName := defaultProfileName } else p

def templateData (uuids : ProfileUuids) (p : Params) : TemplateField → List Char
  | .profileName => p.profileName.toList
  | .profileUUID => uuids.profile.text
  | .caPayloadUUID => uuids.caPayload.text
  | .identityPayloadUUID => uuids.identityPayload.text
  | .vpnPayloadUUID => uuids.vpnPayload.text
  | .serverIP => p.serverIP.toList
  | .clientID => p.clientID.toList
  | .caIssuerCN => p.caIssuerCN.toList
  | .pkcs12Password => p.pkcs12Password.toList
  | .caCertB64 => wrapBase64 p.caCertDER
  | .pkcs12B64 => wrapBase64 p.pkcs12Data

/-- The errors met when the output is opened and written. -/
structure OutputErrors where
  opening : Option String
  writing : Option String

/-- The document written to the output file.  The template itself is fixed and
always parses. -/
def generate (errors : OutputErrors) (uuids : ProfileUuids) (p : Params) :
    Except String (List Char) := do
  let data := templateData uuids (withDefaults p)
  if let some err := errors.opening then throw ("opening mobileconfig output: " ++ err)
  if let some err := errors.writing then throw ("rendering mobileconfig template: " ++ err)
  return fill data profileTemplate

/-! ## What a profile should say -/

def Params.strings (p : Params) : List String :=
  [p.serverIP, p.clientID, p.caIssuerCN, p.pkcs12Password, p.profileName]

/-- The texts of the document's strings, in order. -/
def profileStrings (uuids : ProfileUuids) (p : Params) : List (List Char) :=
  let name := p.profileName.toList
  let identifier := "net.prototype.".toList ++ name
  ["IKEv2 VPN profile for ".toList ++ name, name, identifier, "prototype-net".toList,
    "Configuration".toList, uuids.profile.text,
    name ++ " CA".toList, identifier ++ ".ca".toList, "com.apple.security.root".toList,
    uuids.caPayload.text,
    p.pkcs12Password.toList, name ++ " Identity".toList, identifier ++ ".identity".toList,
    "com.apple.security.pkcs12".toList, uuids.identityPayload.text,
    name ++ " VPN".toList, identifier ++ ".vpn".toList, "com.apple.vpn.managed".toList,
    uuids.vpnPayload.text, name, "IKEv2".toList, "Certificate".toList,
    "RSA".toList, uuids.identityPayload.text, p.serverIP.toList,
    p.serverIP.toList, p.clientID.toList, p.caIssuerCN.toList, "AES-256".toList,
    "SHA2-256".toList, "AES-256-GCM".toList]

def decodeData (text : List Char) : Option (List Byte) :=
  Base64.decode (text.filter fun c ↦ !isBlank c)

/-- The document is well formed, its strings are the parameters in their
places, and its data, without blanks, decode to the given bytes. -/
def CarriesParams (uuids : ProfileUuids) (p : Params) (doc : List Char) : Prop :=
  ∃ ts, Xml.read doc = some ts ∧ wellFormed ts ∧
    elementTexts "string".toList ts = some (profileStrings uuids p) ∧
    (elementTexts "data".toList ts).map (List.map decodeData) =
      some [some p.caCertDER, some p.pkcs12Data]

/-- Nothing in the text has a meaning of its own in a document. -/
def MarkupFree (s : String) : Prop :=
  '<' ∉ s.toList ∧ '&' ∉ s.toList ∧ ¬ [']', ']', '>'] <:+: s.toList ∧ '\r' ∉ s.toList

instance (s : String) : Decidable (MarkupFree s) :=
  inferInstanceAs (Decidable (_ ∧ _ ∧ _ ∧ _))

/-! ## The template is read as written -/

theorem profile_ready : ∀ p ∈ profileTemplate, p.Ready := by
  unfold profileTemplate profileEntries profileEnd lit
  repeat rw [String.toList_ofList]
  decide +kernel

theorem profile_checked : Checked "string".toList profileEntries profileEnd where
  tagName_eq := by decide +kernel
  startTag := by decide +kernel
  endTag := by decide +kernel
  ready := profile_ready
  spaced := by decide +kernel
  entry := by
    unfold profileEntries lit
    repeat rw [String.toList_ofList]
    decide +kernel
  rest := by
    unfold profileEnd lit
    repeat rw [String.toList_ofList]
    decide +kernel

theorem profile_nested :
    (shape profileTemplate).foldlM (nestStep gapBlank) (.prolog true false) = some .epilog := by
  unfold profileTemplate profileEntries profileEnd lit
  repeat rw [String.toList_ofList]
  decide +kernel

/-- The text of a data element in the template. -/
def dataText (f : TemplateField) : List (Char ⊕ TemplateField) :=
  [.inl '\n', .inr f, .inl '\n', .inl '\t', .inl '\t', .inl '\t']

theorem profile_data : elementTexts "data".toList (shape profileTemplate) =
    some [dataText .caCertB64, dataText .pkcs12B64] := by
  unfold profileTemplate profileEntries profileEnd lit
  repeat rw [String.toList_ofList]
  decide +kernel

theorem profileEntries_text (uuids : ProfileUuids) (p : Params) :
    (profileEntries.map fun e ↦ fill (templateData uuids p) e.text) = profileStrings uuids p := by
  simp only [profileEntries, fill, lit, templateData, profileStrings, List.map_cons, List.map_nil,
    List.flatMap_cons, List.flatMap_nil, List.append_nil, List.append_assoc]

/-- Apart from strings, only data are filled in. -/
theorem gap_of_mem_before (f : TemplateField)
    (h : .gap f ∈ profileEnd ∨ ∃ e ∈ profileEntries, .gap f ∈ e.before) :
    f = .caCertB64 ∨ f = .pkcs12B64 := by
  simpa only [profileEntries, profileEnd, lit, List.mem_cons, List.not_mem_nil, reduceCtorEq,
    Piece.gap.injEq, exists_eq_or_imp, exists_eq_left, or_false, false_or, false_and, exists_false]
    using h

/-! ## Values made by the agent -/

theorem isSafe_hexChar {n : ℕ} (h : n < 16) : isSafe (hexChar n) := by
  revert n
  decide

theorem isSafe_encodeHex {bytes : List Byte} : ∀ c ∈ encodeHex bytes, isSafe c := by
  intro c hc
  obtain ⟨b, -, hb⟩ := List.mem_flatMap.mp hc
  have hlt := b.isLt
  rcases List.mem_pair.mp hb with rfl | rfl
  · exact isSafe_hexChar (by omega)
  · exact isSafe_hexChar (by omega)

theorem isSafe_uuid (uuid : Uuid) : ∀ c ∈ uuid.text, isSafe c := by
  have hsafe : uuidChars.all isSafe := by decide
  intro c hc
  have hchar : c ∈ uuidChars := List.contains_iff_mem.mp (List.all_eq_true.mp uuid.chars c hc)
  exact List.all_eq_true.mp hsafe c hchar

theorem mem_wrapLines {encoded : List Char} : ∀ c ∈ wrapLines encoded, c ∈ encoded ∨ c = '\n' := by
  induction encoded using wrapLines.induct with
  | case1 encoded hlong ih =>
      intro c hc
      rw [wrapLines, if_pos hlong, List.mem_append, List.mem_cons] at hc
      rcases hc with hc | rfl | hc
      · exact .inl (List.mem_of_mem_take hc)
      · exact .inr rfl
      · exact (ih c hc).imp_left List.mem_of_mem_drop
  | case2 encoded hshort =>
      intro c hc
      rw [wrapLines, if_neg hshort] at hc
      exact .inl hc

theorem filter_wrapLines {encoded : List Char} (h : ∀ c ∈ encoded, isBlank c = false) :
    (wrapLines encoded).filter (fun c ↦ !isBlank c) = encoded := by
  induction encoded using wrapLines.induct with
  | case1 encoded hlong ih =>
      have htake : (encoded.take 76).filter (fun c ↦ !isBlank c) = encoded.take 76 :=
        List.filter_eq_self.mpr fun c hc ↦ by rw [h c (List.mem_of_mem_take hc)]; rfl
      rw [wrapLines, if_pos hlong, List.filter_append, List.filter_cons_of_neg (by decide), htake,
        ih fun c hc ↦ h c (List.mem_of_mem_drop hc), List.take_append_drop]
  | case2 encoded hshort =>
      rw [wrapLines, if_neg hshort]
      exact List.filter_eq_self.mpr fun c hc ↦ by rw [h c hc]; rfl

theorem isSafe_digit {n : ℕ} (h : n < 64) :
    isSafe (Base64.digit n) ∧ isBlank (Base64.digit n) = false := by
  revert n
  decide +kernel

theorem alphabet_safe : ∀ c ∈ Base64.alphabet, isSafe c ∧ isBlank c = false := by
  intro c hc
  rcases List.mem_cons.mp hc with rfl | hc
  · decide +kernel
  · obtain ⟨n, hn, rfl⟩ := List.mem_map.mp hc
    exact isSafe_digit (List.mem_range.mp hn)

theorem isSafe_wrapBase64 (bytes : List Byte) : ∀ c ∈ wrapBase64 bytes, isSafe c := by
  intro c hc
  rcases mem_wrapLines c hc with hc | rfl
  · exact (alphabet_safe c (Base64.mem_alphabet_of_mem_encode c hc)).1
  · decide

theorem decodeData_dataText {f : TemplateField} {data : TemplateField → List Char}
    {bytes : List Byte} (h : data f = wrapBase64 bytes) :
    decodeData ((dataText f).flatMap (fillSym data)) = some bytes := by
  have hfill : (dataText f).flatMap (fillSym data) =
    ('\n' :: data f) ++ ['\n', '\t', '\t', '\t'] := rfl
  have hblank : ∀ c ∈ Base64.encode bytes, isBlank c = false := fun c hc ↦
    (alphabet_safe c (Base64.mem_alphabet_of_mem_encode c hc)).2
  rw [hfill, h, decodeData, List.filter_append, List.filter_cons_of_neg (by decide), wrapBase64,
    filter_wrapLines hblank, show List.filter _ ['\n', '\t', '\t', '\t'] = [] from by decide,
    List.append_nil, Base64.decode_encode]

theorem plain_iff_markupFree (s : String) : Plain s.toList ↔ MarkupFree s :=
  plain_iff s.toList

/-! ## Faithful profiles -/

/-- If the strings are plain, the document carries them. -/
theorem carriesParams_of_markupFree {uuids : ProfileUuids} {p : Params}
    (hlegal : ∀ s ∈ p.strings, s.toList.all isLegal) (hfree : ∀ s ∈ p.strings, MarkupFree s) :
    CarriesParams uuids p (fill (templateData uuids p) profileTemplate) := by
  have hstring : ∀ s ∈ p.strings, Plain s.toList ∧ ∀ c ∈ s.toList, isLegal c := fun s hs ↦
    ⟨(plain_iff_markupFree s).mpr (hfree s hs), List.all_eq_true.mp (hlegal s hs)⟩
  have hgaps : ∀ f, Plain (templateData uuids p f) ∧ ∀ c ∈ templateData uuids p f, isLegal c := by
    intro f
    cases f with
    | profileName => exact hstring p.profileName (by simp [Params.strings])
    | profileUUID => exact plain_of_safe (isSafe_uuid _)
    | caPayloadUUID => exact plain_of_safe (isSafe_uuid _)
    | identityPayloadUUID => exact plain_of_safe (isSafe_uuid _)
    | vpnPayloadUUID => exact plain_of_safe (isSafe_uuid _)
    | serverIP => exact hstring p.serverIP (by simp [Params.strings])
    | clientID => exact hstring p.clientID (by simp [Params.strings])
    | caIssuerCN => exact hstring p.caIssuerCN (by simp [Params.strings])
    | pkcs12Password => exact hstring p.pkcs12Password (by simp [Params.strings])
    | caCertB64 => exact plain_of_safe (isSafe_wrapBase64 _)
    | pkcs12B64 => exact plain_of_safe (isSafe_wrapBase64 _)
  refine ⟨_, profile_checked.read_fill hgaps, wellFormed_tokens _ profile_nested, ?_, ?_⟩
  · rw [profile_checked.elementTexts_eq, profileEntries_text]
  · have hdata := elementTexts_tokens "data".toList (templateData uuids p) profileTemplate
    rw [profile_data] at hdata
    rw [← profileTemplate, hdata]
    simp only [Option.map_some, List.map_cons, List.map_nil]
    rw [decodeData_dataText rfl, decodeData_dataText rfl]

/-- The document carries the strings only if they are plain. -/
theorem markupFree_of_carriesParams {uuids : ProfileUuids} {p : Params}
    (h : CarriesParams uuids p (fill (templateData uuids p) profileTemplate)) :
    ∀ s ∈ p.strings, MarkupFree s := by
  obtain ⟨ts, hread, -, hstrings, -⟩ := h
  have hgaps : ∀ f, (.gap f ∈ profileEnd ∨ ∃ e ∈ profileEntries, .gap f ∈ e.before) →
      Plain (templateData uuids p f) ∧ ∀ c ∈ templateData uuids p f, isLegal c := by
    intro f hf
    rcases gap_of_mem_before f hf with rfl | rfl
    · exact plain_of_safe (isSafe_wrapBase64 _)
    · exact plain_of_safe (isSafe_wrapBase64 _)
  rw [← profileEntries_text] at hstrings
  have hplain := profile_checked.plain_of_read hgaps hread hstrings
  -- Each string parameter is the whole text of some string.
  have halone : ∀ f, [.gap f] ∈ profileEntries.map Entry.text →
      Plain (templateData uuids p f) := by
    intro f hf
    obtain ⟨e, he, hef⟩ := List.mem_map.mp hf
    have hp := hplain e he
    rw [hef] at hp
    simpa [fill] using hp
  have hfields : ∀ f ∈ [TemplateField.serverIP, .clientID, .caIssuerCN, .pkcs12Password,
      .profileName], [.gap f] ∈ profileEntries.map Entry.text := by
    decide +kernel
  intro s hs
  rw [← plain_iff_markupFree]
  simp only [Params.strings, List.mem_cons, List.not_mem_nil, or_false] at hs
  rcases hs with rfl | rfl | rfl | rfl | rfl
  · exact halone .serverIP (hfields _ (by simp))
  · exact halone .clientID (hfields _ (by simp))
  · exact halone .caIssuerCN (hfields _ (by simp))
  · exact halone .pkcs12Password (hfields _ (by simp))
  · exact halone .profileName (hfields _ (by simp))

theorem generate_ok (uuids : ProfileUuids) (p : Params) :
    generate ⟨none, none⟩ uuids p =
      .ok (fill (templateData uuids (withDefaults p)) profileTemplate) := rfl

theorem mem_strings_withDefaults {p : Params} {s : String} (h : s ∈ (withDefaults p).strings) :
    s ∈ p.strings ∨ s = defaultProfileName := by
  unfold withDefaults at h
  split at h
  · simp only [Params.strings, List.mem_cons, List.not_mem_nil, or_false] at h ⊢
    tauto
  · exact .inl h

theorem mem_withDefaults_strings {p : Params} {s : String} (h : s ∈ p.strings) :
    s ∈ (withDefaults p).strings ∨ s = "" := by
  unfold withDefaults
  split
  · rename_i hname
    simp only [Params.strings, List.mem_cons, List.not_mem_nil, or_false, hname] at h ⊢
    tauto
  · exact .inl h

/-- A generated profile carries its parameters just if none of the strings
holds a character or sequence that documents give a meaning of its own. -/
theorem generated_profile_faithful_iff (uuids : ProfileUuids) (p : Params)
    (hlegal : ∀ s ∈ p.strings, s.toList.all isLegal) :
    (∃ doc, generate ⟨none, none⟩ uuids p = .ok doc ∧
      CarriesParams uuids (withDefaults p) doc) ↔ ∀ s ∈ p.strings, MarkupFree s := by
  constructor
  · rintro ⟨doc, hdoc, hcarries⟩ s hs
    cases (generate_ok uuids p).symm.trans hdoc
    rcases mem_withDefaults_strings hs with hs | rfl
    · exact markupFree_of_carriesParams hcarries s hs
    · decide
  · intro hfree
    refine ⟨_, generate_ok uuids p, carriesParams_of_markupFree ?_ ?_⟩
    · intro s hs
      rcases mem_strings_withDefaults hs with hs | rfl
      · exact hlegal s hs
      · decide +kernel
    · intro s hs
      rcases mem_strings_withDefaults hs with hs | rfl
      · exact hfree s hs
      · decide +kernel

def nilUuid : Uuid :=
  ⟨List.intercalate ['-'] ([8, 4, 4, 4, 12].map (List.replicate · '0')), by decide +kernel⟩

def nilUuids : ProfileUuids :=
  ⟨nilUuid, nilUuid, nilUuid, nilUuid⟩

/-- Parameters as `setup` collects them, for a CA of the given name. -/
def paramsOf (caIssuerCN : String) : Params where
  serverIP := "203.0.113.7"
  clientID := "laptop"
  caIssuerCN := caIssuerCN
  caCertDER := [0x30, 0x03, 0x02, 0x01, 0x05]
  pkcs12Data := [0x30, 0x00]
  pkcs12Password := "s3cret"
  profileName := ""

theorem generated_profile_faithful_plain_name :
    ∃ doc, generate ⟨none, none⟩ nilUuids (paramsOf "prototype-net CA") = .ok doc ∧
      CarriesParams nilUuids (withDefaults (paramsOf "prototype-net CA")) doc :=
  (generated_profile_faithful_iff nilUuids (paramsOf "prototype-net CA") (by decide +kernel)).mpr
    (by decide +kernel)

/-- The name of a CA called `R&D CA` is not carried: its ampersand starts a
reference. -/
theorem generated_profile_breaks_on_ampersand :
    (∀ s ∈ (paramsOf "R&D CA").strings, s.toList.all isLegal) ∧
      ∃ doc, generate ⟨none, none⟩ nilUuids (paramsOf "R&D CA") = .ok doc ∧
        ¬ CarriesParams nilUuids (withDefaults (paramsOf "R&D CA")) doc := by
  refine ⟨by decide +kernel, _, generate_ok _ _, fun hcarries ↦ ?_⟩
  have hfree := markupFree_of_carriesParams hcarries "R&D CA" (by decide)
  exact absurd hfree (by decide)

end PrototypeNet
