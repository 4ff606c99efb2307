import PrototypeNet.Lib.JsonSplice
import PrototypeNet.Agent.Profile

/-!
# Client bundles

`gen-client.sh` writes a client's certificates and identity as a JSON file, the
bundle, which `setup` of the agent reads.  The script puts the texts between
quotes as they are, with the lines of a certificate joined by `\n`.  The bundle
is read as it was meant exactly if the client's name is plain; a name with a
quote in it can bring in a certificate of its own.
-/

namespace PrototypeNet

open ByteWords Json

/-! ## Writing a bundle -/

namespace GenClient

/-- The records of `awk`: the lines of a file, the last of which may lack its
end. -/
def records : List Char → List (List Char)
  | [] => []
  | c :: cs =>
      if c = '\n' then [] :: records cs
      else
        match records cs with
        | [] => [[c]]
        | r :: rs => (c :: r) :: rs

def pemToJsonString (file : List Char) : List Char :=
  List.intercalate ['\\', 'n'] (records file) ++ ['\n']

/-- The output of a command that is substituted for the command. -/
def substituted (output : List Char) : List Char :=
  output.rdropWhile (· = '\n')

/-- `echo` and `tr -d`. -/
def oneLine (text : List Char) : List Char :=
  substituted ((text ++ ['\n']).filter (· ≠ '\n'))

/-- The file that is written. -/
def bundleText (caPem clientCrtPem clientKeyPem clientId p12B64 p12Password : List Char) :
    List Char :=
  "\x7b\n  \"ca_cert_pem\": \"".toList ++ caPem ++
    "\",\n  \"client_cert_pem\": \"".toList ++ clientCrtPem ++
    "\",\n  \"client_key_pem\": \"".toList ++ clientKeyPem ++
    "\",\n  \"client_id\": \"".toList ++ clientId ++
    "\",\n  \"pkcs12_b64\": \"".toList ++ p12B64 ++
    "\",\n  \"pkcs12_password\": \"".toList ++ p12Password ++ "\"\n\x7d\n".toList

end GenClient

/-- What the script has when it writes the bundle.  Certificates and keys are
lines of plain characters, and `base64` has printed the identity in lines of
whatever length. -/
structure Client where
  clientId : List Char
  caCrt : List Char
  clientCrt : List Char
  clientKey : List Char
  pem : ∀ file ∈ [caCrt, clientCrt, clientKey], ∀ c ∈ file, isPlain c = true ∨ c = '\n'
  p12 : List Byte
  p12Base64 : List Char
  p12Base64_eq : p12Base64.filter (· ≠ '\n') = Base64.encode p12
  password : Vector Byte 16

namespace Client

open GenClient

/-- `openssl rand -hex` -/
def passwordText (k : Client) : List Char :=
  substituted (encodeHex k.password.toList ++ ['\n'])

def bundleJson (k : Client) : List Char :=
  bundleText (substituted (pemToJsonString k.caCrt)) (substituted (pemToJsonString k.clientCrt))
    (substituted (pemToJsonString k.clientKey)) k.clientId (oneLine (substituted k.p12Base64))
    k.passwordText

end Client

/-! ## Reading a bundle -/

structure Bundle where
  caCertPEM : String
  clientCertPEM : String
  clientKeyPEM : String
  clientID : String
  pkcs12B64 : String
  pkcs12Password : String
  deriving DecidableEq, Repr

def Bundle.zero : Bundle := ⟨"", "", "", "", "", ""⟩

def bundleFields : List (RecordField Bundle) :=
  [.str "ca_cert_pem".toList fun s b ↦ { b with caCertPEM := String.ofList s },
    .str "client_cert_pem".toList fun s b ↦ { b with clientCertPEM := String.ofList s },
    .str "client_key_pem".toList fun s b ↦ { b with clientKeyPEM := String.ofList s },
    .str "client_id".toList fun s b ↦ { b with clientID := String.ofList s },
    .str "pkcs12_b64".toList fun s b ↦ { b with pkcs12B64 := String.ofList s },
    .str "pkcs12_password".toList fun s b ↦ { b with pkcs12Password := String.ofList s }]

def readBundle (text : List Char) : Except UnmarshalError Bundle :=
  unmarshal bundleFields .zero text

/-! ## What the script puts between the quotes -/

/-- A file without the newline at its end. -/
def chomp : List Char → List Char
  | [] => []
  | [c] => if c = '\n' then [] else [c]
  | c :: d :: cs => c :: chomp (d :: cs)

def lineEscape (c : Char) : List Char :=
  if c = '\n' then ['\\', 'n'] else [c]

def escapeLines (s : List Char) : List Char :=
  s.flatMap lineEscape

namespace GenClient

theorem records_ne_nil (c : Char) (cs : List Char) : records (c :: cs) ≠ [] := by
  rw [records]
  split_ifs
  · nofun
  · split <;> nofun

theorem intercalate_cons_cons (sep a b : List Char) (l : List (List Char)) :
    List.intercalate sep (a :: b :: l) = a ++ (sep ++ List.intercalate sep (b :: l)) := by
  simp [List.intercalate, List.intersperse]

theorem intercalate_cons_head (sep a : List Char) (c : Char) (l : List (List Char)) :
    List.intercalate sep ((c :: a) :: l) = c :: List.intercalate sep (a :: l) := by
  cases l <;> simp [List.intercalate, List.intersperse]

theorem intercalate_records (file : List Char) :
    List.intercalate ['\\', 'n'] (records file) = escapeLines (chomp file) := by
  induction file using chomp.induct with
  | case1 => rfl
  | case2 => simp [records, chomp, escapeLines]
  | case3 c hc => simp [records, chomp, escapeLines, lineEscape, hc]
  | case4 c d cs ih =>
      obtain ⟨r, rs, hrecords⟩ := List.exists_cons_of_ne_nil (records_ne_nil d cs)
      have hchomp : escapeLines (chomp (c :: d :: cs)) =
          lineEscape c ++ escapeLines (chomp (d :: cs)) := List.flatMap_cons
      rw [hrecords] at ih
      rw [hchomp, ← ih, records, hrecords]
      by_cases hc : c = '\n'
      · rw [if_pos hc, intercalate_cons_cons, lineEscape, if_pos hc, List.nil_append]
      · rw [if_neg hc]
        simp only
        rw [intercalate_cons_head, lineEscape, if_neg hc, List.singleton_append]

theorem newline_notMem_escapeLines (s : List Char) : '\n' ∉ escapeLines s := by
  intro h
  obtain ⟨c, -, hc⟩ := List.mem_flatMap.mp h
  unfold lineEscape at hc
  split_ifs at hc with hnew
  · simp at hc
  · exact hnew (List.mem_singleton.mp hc).symm

theorem escapeLines_eq_self {s : List Char} (h : '\n' ∉ s) : escapeLines s = s := by
  induction s with
  | nil => rfl
  | cons c s ih =>
      rw [List.mem_cons, not_or] at h
      have hc : lineEscape c = [c] := if_neg fun hc ↦ h.1 hc.symm
      calc escapeLines (c :: s)
        _ = lineEscape c ++ escapeLines s := List.flatMap_cons
        _ = c :: s := by rw [hc, ih h.2, List.singleton_append]

theorem substituted_eq_self {s : List Char} (h : '\n' ∉ s) : substituted s = s := by
  rw [substituted, List.rdropWhile_eq_self_iff]
  intro hs hlast
  exact h (of_decide_eq_true hlast ▸ List.getLast_mem hs)

theorem substituted_line {s : List Char} (h : '\n' ∉ s) : substituted (s ++ ['\n']) = s := by
  rw [substituted, List.rdropWhile_concat_pos _ _ _ (by decide)]
  exact substituted_eq_self h

theorem substituted_pemToJsonString (file : List Char) :
    substituted (pemToJsonString file) = escapeLines (chomp file) := by
  rw [pemToJsonString, intercalate_records]
  exact substituted_line (newline_notMem_escapeLines _)

theorem filter_substituted (output : List Char) :
    (substituted output).filter (· ≠ '\n') = output.filter (· ≠ '\n') := by
  have hdropped : (output.rtakeWhile (· = '\n')).filter (· ≠ '\n') = [] := by
    rw [List.filter_eq_nil_iff]
    intro c hc
    have hnew := List.mem_rtakeWhile_imp hc
    rw [decide_eq_true_eq] at hnew
    simp [hnew]
  conv_rhs => rw [← List.rdropWhile_append_rtakeWhile (p := (· = '\n')) (l := output)]
  rw [List.filter_append, hdropped, List.append_nil, substituted]

theorem oneLine_substituted (output : List Char) :
    oneLine (substituted output) = output.filter (· ≠ '\n') := by
  rw [oneLine, List.filter_append, filter_substituted]
  simp only [ne_eq, not_true_eq_false, decide_false, Bool.false_eq_true, not_false_eq_true,
    List.filter_cons_of_neg, List.filter_nil, List.append_nil]
  exact substituted_eq_self (by simp)

/-- From the end of one text to the beginning of the next. -/
def between (name : List Char) : List Char :=
  '"' :: ',' :: (newline 1 ++ (printString name ++ [':', ' ', '"']))

theorem splice_of_lines {name₁ name₂ name₃ name₄ name₅ name₆ : List Char}
    {line₁ line₂ line₃ line₄ line₅ line₆ last : List Char}
    (h₁ : line₁ = '\x7b' :: (newline 1 ++ (printString name₁ ++ [':', ' ', '"'])))
    (h₂ : line₂ = between name₂) (h₃ : line₃ = between name₃) (h₄ : line₄ = between name₄)
    (h₅ : line₅ = between name₅) (h₆ : line₆ = between name₆)
    (hlast : last = '"' :: (spliceEnd ++ ['\n'])) (a b c d e f : List Char) :
    line₁ ++ a ++ line₂ ++ b ++ line₃ ++ c ++ line₄ ++ d ++ line₅ ++ e ++ line₆ ++ f ++ last =
      splice (name₁, a) [(name₂, b), (name₃, c), (name₄, d), (name₅, e), (name₆, f)] ++
        ['\n'] := by
  subst h₁ h₂ h₃ h₄ h₅ h₆ hlast
  simp [between, splice, spliceFields, spliceField]

theorem bundleText_eq (caPem clientCrtPem clientKeyPem clientId p12B64 p12Password : List Char) :
    bundleText caPem clientCrtPem clientKeyPem clientId p12B64 p12Password =
      splice ("ca_cert_pem".toList, caPem) [("client_cert_pem".toList, clientCrtPem),
        ("client_key_pem".toList, clientKeyPem), ("client_id".toList, clientId),
        ("pkcs12_b64".toList, p12B64), ("pkcs12_password".toList, p12Password)] ++ ['\n'] :=
  splice_of_lines (by decide +kernel) (by decide +kernel) (by decide +kernel) (by decide +kernel)
    (by decide +kernel) (by decide +kernel) (by decide +kernel) _ _ _ _ _ _

end GenClient

theorem isPlain_digit {n : ℕ} (h : n < 64) : isPlain (Base64.digit n) = true := by
  revert n
  decide +kernel

theorem isPlain_of_mem_encode {bytes : List Byte} {c : Char} (h : c ∈ Base64.encode bytes) :
    isPlain c = true := by
  rcases List.mem_cons.mp (Base64.mem_alphabet_of_mem_encode c h) with rfl | h
  · decide
  · obtain ⟨n, hn, rfl⟩ := List.mem_map.mp h
    exact isPlain_digit (List.mem_range.mp hn)

theorem isPlain_hexChar {n : ℕ} (h : n < 16) : isPlain (hexChar n) = true := by
  revert n
  decide

theorem isPlain_of_mem_encodeHex {bytes : List Byte} {c : Char} (h : c ∈ encodeHex bytes) :
    isPlain c = true := by
  obtain ⟨b, -, hb⟩ := List.mem_flatMap.mp h
  have hlt := b.isLt
  rcases List.mem_pair.mp hb with rfl | rfl
  · exact isPlain_hexChar (by omega)
  · exact isPlain_hexChar (by omega)

theorem newline_notMem_of_plain {s : List Char} (h : ∀ c ∈ s, isPlain c = true) : '\n' ∉ s := by
  intro hmem
  have hnew := h _ hmem
  revert hnew
  decide

theorem mem_of_mem_chomp {file : List Char} {c : Char} (h : c ∈ chomp file) : c ∈ file := by
  induction file using chomp.induct with
  | case1 => exact h
  | case2 => simp [chomp] at h
  | case3 d hd => simpa [chomp, hd] using h
  | case4 d e cs ih =>
      rw [chomp] at h
      rcases List.mem_cons.mp h with rfl | h
      · exact List.mem_cons_self
      · exact List.mem_cons_of_mem _ (ih h)

theorem readsAs_escapeLines {s : List Char} (h : ∀ c ∈ s, isPlain c = true ∨ c = '\n') :
    ReadsAs (escapeLines s) s := by
  refine readsAs_flatMap fun c hc ↦ ?_
  unfold lineEscape
  split_ifs with hnew
  · exact hnew ▸ readsAs_simpleEscape rfl
  · exact readsAs_plain ((h c hc).resolve_right hnew)

/-! ## What is read from a bundle -/

namespace Client

open GenClient

/-- The bundle as it is meant. -/
def bundle (k : Client) : Bundle where
  caCertPEM := String.ofList (chomp k.caCrt)
  clientCertPEM := String.ofList (chomp k.clientCrt)
  clientKeyPEM := String.ofList (chomp k.clientKey)
  clientID := String.ofList k.clientId
  pkcs12B64 := String.ofList (Base64.encode k.p12)
  pkcs12Password := String.ofList (encodeHex k.password.toList)

def caField (k : Client) : List Char × List Char :=
  ("ca_cert_pem".toList, chomp k.caCrt)

def certFields (k : Client) : List (List Char × List Char) :=
  [("client_cert_pem".toList, chomp k.clientCrt), ("client_key_pem".toList, chomp k.clientKey)]

def p12Field (k : Client) : List Char × List Char :=
  ("pkcs12_b64".toList, Base64.encode k.p12)

def passwordFields (k : Client) : List (List Char × List Char) :=
  [("pkcs12_password".toList, encodeHex k.password.toList)]

theorem passwordText_eq (k : Client) : k.passwordText = encodeHex k.password.toList :=
  substituted_line (newline_notMem_of_plain fun _ hc ↦ isPlain_of_mem_encodeHex hc)

theorem bundleJson_eq (k : Client) :
    k.bundleJson = splice (k.caField.1, escapeLines k.caField.2)
      (escapeWith escapeLines k.certFields ++ ("client_id".toList, k.clientId) ::
        escapeWith escapeLines (k.p12Field :: k.passwordFields)) ++ ['\n'] := by
  have hp12 : escapeLines (Base64.encode k.p12) = Base64.encode k.p12 :=
    escapeLines_eq_self (newline_notMem_of_plain fun _ hc ↦ isPlain_of_mem_encode hc)
  have hpassword : escapeLines (encodeHex k.password.toList) = encodeHex k.password.toList :=
    escapeLines_eq_self (newline_notMem_of_plain fun _ hc ↦ isPlain_of_mem_encodeHex hc)
  have hfields : escapeWith escapeLines k.certFields ++ ("client_id".toList, k.clientId) ::
      escapeWith escapeLines (k.p12Field :: k.passwordFields) =
      [("client_cert_pem".toList, escapeLines (chomp k.clientCrt)),
        ("client_key_pem".toList, escapeLines (chomp k.clientKey)),
        ("client_id".toList, k.clientId),
        ("pkcs12_b64".toList, escapeLines (Base64.encode k.p12)),
        ("pkcs12_password".toList, escapeLines (encodeHex k.password.toList))] := rfl
  rw [hfields, hp12, hpassword, bundleJson, bundleText_eq, substituted_pemToJsonString,
    substituted_pemToJsonString, substituted_pemToJsonString, oneLine_substituted,
    k.p12Base64_eq, passwordText_eq]
  rfl

theorem readsAs_pem (k : Client) {file : List Char}
    (h : file ∈ [k.caCrt, k.clientCrt, k.clientKey]) :
    ReadsAs (escapeLines (chomp file)) (chomp file) :=
  readsAs_escapeLines fun c hc ↦ k.pem file h c (mem_of_mem_chomp hc)

theorem readsAs_before (k : Client) :
    ∀ f ∈ k.caField :: k.certFields, ReadsAs (escapeLines f.2) f.2 := by
  intro f hf
  rcases List.mem_cons.mp hf with rfl | hf
  · exact k.readsAs_pem (by simp)
  · rcases List.mem_pair.mp hf with rfl | rfl
    · exact k.readsAs_pem (by simp)
    · exact k.readsAs_pem (by simp)

theorem readsAs_after (k : Client) :
    ∀ f ∈ k.p12Field :: k.passwordFields, ReadsAs (escapeLines f.2) f.2 := by
  intro f hf
  rcases List.mem_pair.mp hf with rfl | rfl
  · exact readsAs_escapeLines fun c hc ↦ .inl (isPlain_of_mem_encode hc)
  · exact readsAs_escapeLines fun c hc ↦ .inl (isPlain_of_mem_encodeHex hc)

theorem isSpace_newline : ∀ c ∈ ['\n'], isSpace c = true := by
  intro c hc
  rw [List.mem_singleton.mp hc]
  rfl

theorem bundleFields_nodup : (bundleFields.map RecordField.name).Nodup := by
  decide +kernel

theorem store_at (i : ℕ) {f : RecordField Bundle} (hi : bundleFields[i]? = some f) (b : Bundle)
    (v : Value) : storeField bundleFields b (f.name, v) = f.store v b :=
  storeField_of_mem bundleFields_nodup (List.mem_of_getElem? hi) v b

theorem store_before (k : Client) :
    (strEntries (k.caField :: k.certFields)).foldlM (storeField bundleFields) .zero =
      some ⟨k.bundle.caCertPEM, k.bundle.clientCertPEM, k.bundle.clientKeyPEM, "", "", ""⟩ := by
  calc (strEntries (k.caField :: k.certFields)).foldlM (storeField bundleFields) .zero
    _ = (strEntries k.certFields).foldlM (storeField bundleFields)
        ⟨k.bundle.caCertPEM, "", "", "", "", ""⟩ :=
      storeEntries_cons (store_at 0 rfl _ (.str (chomp k.caCrt))) _
    _ = (strEntries [("client_key_pem".toList, chomp k.clientKey)]).foldlM
        (storeField bundleFields) ⟨k.bundle.caCertPEM, k.bundle.clientCertPEM, "", "", "", ""⟩ :=
      storeEntries_cons (store_at 1 rfl _ (.str (chomp k.clientCrt))) _
    _ = some ⟨k.bundle.caCertPEM, k.bundle.clientCertPEM, k.bundle.clientKeyPEM, "", "", ""⟩ :=
      storeEntries_cons (store_at 2 rfl _ (.str (chomp k.clientKey))) []

theorem store_clientId (k : Client) (b : Bundle) :
    [("client_id".toList, Value.str k.clientId)].foldlM (storeField bundleFields) b =
      some { b with clientID := k.bundle.clientID } :=
  storeEntries_cons (store_at 3 rfl b (.str k.clientId)) []

theorem store_after (k : Client) (b : Bundle) :
    (strEntries (k.p12Field :: k.passwordFields)).foldlM (storeField bundleFields) b =
      some { b with
        pkcs12B64 := k.bundle.pkcs12B64, pkcs12Password := k.bundle.pkcs12Password } := by
  calc (strEntries (k.p12Field :: k.passwordFields)).foldlM (storeField bundleFields) b
    _ = (strEntries k.passwordFields).foldlM (storeField bundleFields)
        { b with pkcs12B64 := k.bundle.pkcs12B64 } :=
      storeEntries_cons (store_at 4 rfl b (.str (Base64.encode k.p12))) _
    _ = some { b with
        pkcs12B64 := k.bundle.pkcs12B64, pkcs12Password := k.bundle.pkcs12Password } :=
      storeEntries_cons (store_at 5 rfl _ (.str (encodeHex k.password.toList))) []

/-- The bundle is read as meant if the entries behind the certificates are the
client's name. -/
theorem store_entries (k : Client) :
    storeValue bundleFields .zero
      (.obj (strEntries (k.caField :: k.certFields) ++ [("client_id".toList, .str k.clientId)] ++
        strEntries (k.p12Field :: k.passwordFields))) = .ok k.bundle := by
  rw [storeValue, List.foldlM_append, List.foldlM_append, store_before]
  simp only [Option.bind_eq_bind, Option.bind_some]
  rw [store_clientId, Option.bind_some, store_after]

theorem readBundle_of_plain (k : Client) (h : ∀ c ∈ k.clientId, isPlain c = true) :
    readBundle k.bundleJson = .ok k.bundle := by
  have hid : escapeLines k.clientId = k.clientId :=
    escapeLines_eq_self (newline_notMem_of_plain h)
  have hread : ∀ f ∈ k.caField :: (k.certFields ++
      ("client_id".toList, k.clientId) :: k.p12Field :: k.passwordFields),
      ReadsAs (escapeLines f.2) f.2 := by
    intro f hf
    rw [← List.cons_append] at hf
    rcases List.mem_append.mp hf with hf | hf
    · exact k.readsAs_before f hf
    · rcases List.mem_cons.mp hf with rfl | hf
      · exact readsAs_escapeLines fun c hc ↦ .inl (h c hc)
      · exact k.readsAs_after f hf
  have htext : k.bundleJson = splice (k.caField.1, escapeLines k.caField.2)
      (escapeWith escapeLines (k.certFields ++
        ("client_id".toList, k.clientId) :: k.p12Field :: k.passwordFields)) ++ ['\n'] := by
    have hfields : escapeWith escapeLines (k.certFields ++
        ("client_id".toList, k.clientId) :: k.p12Field :: k.passwordFields) =
        escapeWith escapeLines k.certFields ++ ("client_id".toList, escapeLines k.clientId) ::
          escapeWith escapeLines (k.p12Field :: k.passwordFields) := List.map_append
    rw [bundleJson_eq, hfields, hid]
  rw [readBundle, unmarshal, htext, parse_splice hread isSpace_newline]
  exact k.store_entries

/-- Storing an entry never makes the client's name longer than its text. -/
theorem length_clientID_store {n : ℕ} {b b' : Bundle} {e : List Char × Value}
    (he : Short n e.2) (hb : b.clientID.toList.length < n)
    (h : storeField bundleFields b e = some b') : b'.clientID.toList.length < n := by
  unfold storeField at h
  split at h
  · rename_i f hf
    have hmem := mem_of_matchField hf
    simp only [bundleFields, List.mem_cons, List.not_mem_nil, or_false] at hmem
    rcases hmem with rfl | rfl | rfl | rfl | rfl | rfl
    all_goals rcases store_str h with ⟨text, htext, rfl⟩ | rfl
    all_goals first
      | exact hb
      | simpa only [String.toList_ofList] using he text htext
  · cases h
    exact hb

theorem plain_of_readBundle (k : Client) {b : Bundle} (h : readBundle k.bundleJson = .ok b)
    (hid : b.clientID = k.bundle.clientID) : ∀ c ∈ k.clientId, isPlain c = true := by
  obtain ⟨v, hparse, hstore⟩ := unmarshal_eq_ok h
  rw [bundleJson_eq] at hparse
  obtain ⟨entries, rfl, ⟨hplain, -⟩ | ⟨hpos, hshort⟩⟩ :=
    parse_inserted k.readsAs_before k.readsAs_after isSpace_newline hparse
  · exact hplain
  -- Every name that is read from within the text is shorter than the text.
  · have hfold := storeValue_obj_eq_ok hstore
    rw [List.foldlM_append, List.foldlM_append, store_before] at hfold
    simp only [Option.bind_eq_bind, Option.bind_some] at hfold
    obtain ⟨b', hb', hafter⟩ := Option.bind_eq_some_iff.mp hfold
    rw [store_after] at hafter
    cases hafter
    have hlt : b'.clientID.toList.length < k.clientId.length :=
      storeEntries_invariant (fun b ↦ b.clientID.toList.length < k.clientId.length)
        (fun e he _ _ hb hstep ↦ length_clientID_store (hshort e he) hb hstep) hpos hb'
    have hlen : b'.clientID.toList.length = k.clientId.length := by
      rw [show b'.clientID = String.ofList k.clientId from hid, String.toList_ofList]
    exact absurd hlen hlt.ne

end Client

/-- A bundle is read as it was meant exactly if the client's name is free of
quotes, backslashes and control characters, and no other bundle gives the name. -/
theorem bundle_reads_back_iff (k : Client) :
    (readBundle k.bundleJson = .ok k.bundle ↔ ∀ c ∈ k.clientId, isPlain c = true) ∧
      ((∃ b, readBundle k.bundleJson = .ok b ∧ b.clientID = String.ofList k.clientId) ↔
        ∀ c ∈ k.clientId, isPlain c = true) := by
  refine ⟨⟨fun h ↦ ?_, k.readBundle_of_plain⟩, fun ⟨b, h, hid⟩ ↦ ?_, fun h ↦ ?_⟩
  · exact k.plain_of_readBundle h rfl
  · exact k.plain_of_readBundle h hid
  · exact ⟨k.bundle, k.readBundle_of_plain h, rfl⟩

/-- A client with small files. -/
def demoClient (name : String) : Client where
  clientId := name.toList
  caCrt := ['C', 'A', '\n']
  clientCrt := ['C', 'R', 'T', '\n']
  clientKey := ['K', 'E', 'Y', '\n']
  pem := by
    intro file hfile c hc
    have hall : [['C', 'A', '\n'], ['C', 'R', 'T', '\n'], ['K', 'E', 'Y', '\n']].all
        (fun f ↦ f.all fun c ↦ isPlain c || c == '\n') = true := by decide
    simpa using List.all_eq_true.mp (List.all_eq_true.mp hall file hfile) c hc
  p12 := [1, 2, 3]
  p12Base64 := ['A', 'Q', 'I', '\n', 'D', '\n']
  p12Base64_eq := by decide +kernel
  password := .replicate 16 0xA5#8

-- A name can bring in another certificate, and it can spoil the bundle.
example : (readBundle (demoClient "eve\", \"ca_cert_pem\": \"other").bundleJson).toOption.map
    (fun b ↦ (b.clientID, b.caCertPEM)) = some ("eve", "other") := by
  decide +kernel

example : readBundle (demoClient "back\\slash").bundleJson =
    .error (.malformed .invalidCharacter) := by
  decide +kernel

end PrototypeNet
