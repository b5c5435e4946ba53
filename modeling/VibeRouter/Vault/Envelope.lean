import VibeRouter.Vault.Crypto

/-! # What a stored credential opens to

`Opens master plaintext ciphertext`: the ciphertext is an envelope whose wrapped key opens under
`master`, and whose payload opens under that key to the plaintext.  Encrypting makes such an
envelope, wrapping it again makes one for the new master key, and decrypting one gives the
plaintext. -/

namespace VibeRouter

variable [Gcm] [Platform]

/-! ### Boxes -/

/-- The members of a box are base64 texts. -/
def GcmBox.Ascii (box : GcmBox) : Prop :=
  (∀ c ∈ box.iv, c < 128) ∧ (∀ c ∈ box.tag, c < 128) ∧ ∀ c ∈ box.data, c < 128

omit [Platform] in
theorem sealBox_spec {key plaintext : Bytes} {iv : Random 12} {box : GcmBox}
    (h : sealBox key plaintext iv = .ok box) : box.Ascii := by
  unfold sealBox at h
  split at h
  · cases h
  · cases h
    exact ⟨fun c hc => Base64.encode_lt hc, fun c hc => Base64.encode_lt hc,
      fun c hc => Base64.encode_lt hc⟩

omit [Platform] in
theorem sealBox_ok (key : Random 32) (plaintext : Bytes) (iv : Random 12) :
    ∃ box, sealBox key.val plaintext iv = .ok box := by
  unfold sealBox
  rw [if_neg (not_not.2 key.property)]
  exact ⟨_, rfl⟩

omit [Platform] in
/-- What a box with the three members opens to. -/
theorem openBox_toJson {key : Bytes} (hkey : key.length = 32) (box : GcmBox) :
    openBox key (some box.toJson) =
      match Gcm.decrypt key (Base64.decode box.iv) (Base64.decode box.tag)
          (Base64.decode box.data) with
      | some plaintext => .ok plaintext
      | none => .error (.error "Unsupported state or unable to authenticate data") := by
  have hiv : boxBytes (some box.toJson) "iv" = .ok (Base64.decode box.iv) := rfl
  have htag : boxBytes (some box.toJson) "tag" = .ok (Base64.decode box.tag) := rfl
  have hdata : boxBytes (some box.toJson) "data" = .ok (Base64.decode box.data) := rfl
  simp only [openBox, hiv, htag, hdata, bind, Except.bind]
  rw [if_neg (not_not.2 hkey)]
  rfl

omit [Platform] in
/-- A sealed box opens under its key. -/
theorem openBox_sealBox (hgcm : Gcm.Lawful) {key : Random 32} {plaintext : Bytes} {iv : Random 12}
    {box : GcmBox} (h : sealBox key.val plaintext iv = .ok box) :
    openBox key.val (some box.toJson) = .ok plaintext := by
  have hlength := key.property
  unfold sealBox at h
  rw [if_neg (not_not.2 hlength)] at h
  cases h
  rw [openBox_toJson hlength]
  simp only [Base64.decode_encode]
  rw [hgcm key iv plaintext]

/-! ### The text of an envelope -/

omit [Gcm] [Platform] in
theorem writeChar_ascii {c d : ℕ} (hc : c < 128) (hd : d ∈ Json.writeChar c) : d < 128 := by
  have hhex : ∀ n, n < 16 → Json.hexChar n < 128 := by
    intro n hn
    unfold Json.hexChar
    split <;> omega
  have h₁ := hhex (c / 4096) (by omega)
  have h₂ := hhex (c / 256 % 16) (by omega)
  have h₃ := hhex (c / 16 % 16) (by omega)
  have h₄ := hhex (c % 16) (by omega)
  unfold Json.writeChar Json.unicodeEscape at hd
  split_ifs at hd <;> simp only [List.mem_cons, List.not_mem_nil, or_false] at hd <;> omega

omit [Gcm] [Platform] in
theorem quote_ascii {s : JsString} (h : ∀ c ∈ s, c < 128) : ∀ c ∈ Json.quote s, c < 128 := by
  have hchars : ∀ c ∈ Json.writeChars s, c < 128 := by
    induction s with
    | nil =>
        intro c hc
        cases hc
    | cons d ds ih =>
        have hd := h d (List.mem_cons_self ..)
        have hrest := ih fun c hc => h c (List.mem_cons_of_mem _ hc)
        intro c hc
        rw [Json.writeChars.eq_def] at hc
        simp only at hc
        rw [if_neg (by omega), if_neg (by omega)] at hc
        rcases List.mem_append.1 hc with hc | hc
        · exact writeChar_ascii hd hc
        · exact hrest c hc
  intro c hc
  unfold Json.quote at hc
  simp only [List.cons_append, List.mem_cons, List.mem_append, List.not_mem_nil, or_false] at hc
  rcases hc with hc | hc | hc
  · omega
  · exact hchars c hc
  · omega

omit [Gcm] in
theorem box_ascii {box : GcmBox} (h : box.Ascii) :
    ∀ c ∈ Json.stringify Platform.numberText box.toJson, c < 128 := by
  have hiv := quote_ascii h.1
  have htag := quote_ascii h.2.1
  have hdata := quote_ascii h.2.2
  have h₁ := quote_ascii (s := js "iv") (by decide)
  have h₂ := quote_ascii (s := js "tag") (by decide)
  have h₃ := quote_ascii (s := js "data") (by decide)
  intro c hc
  simp only [GcmBox.toJson, Json.stringify, Json.stringifyEntries, List.cons_append,
    List.mem_cons, List.mem_append, List.not_mem_nil, or_false] at hc
  rcases hc with hc | (hc | hc | hc | hc | hc | hc | hc | hc | hc | hc | hc) | hc
  · omega
  · exact h₁ c hc
  · omega
  · exact hiv c hc
  · omega
  · exact h₂ c hc
  · omega
  · exact htag c hc
  · omega
  · exact h₃ c hc
  · omega
  · exact hdata c hc
  · omega

omit [Gcm] in
/-- An envelope of base64 texts is read back. -/
theorem readEnvelope_writeEnvelope {dek payload : GcmBox} (hdek : dek.Ascii)
    (hpayload : payload.Ascii) :
    readEnvelope (writeEnvelope (envelopeV1 dek payload)) = some (envelopeV1 dek payload) := by
  have hwritable : Json.Writable Platform.numberText (envelopeV1 dek payload) := by
    have hmembers : [js "iv", js "tag", js "data"].Nodup := by decide
    have hparts : [js "alg", js "dek", js "payload"].Nodup := by decide
    have hbox : ∀ box : GcmBox, Json.Writable Platform.numberText box.toJson := fun box =>
      ⟨hmembers, trivial, trivial, trivial, trivial⟩
    exact ⟨hparts, trivial, hbox dek, hbox payload, trivial⟩
  have hascii : ∀ c ∈ Json.stringify Platform.numberText (envelopeV1 dek payload), c < 128 := by
    have h₁ := box_ascii hdek
    have h₂ := box_ascii hpayload
    have halg := quote_ascii (s := js "alg") (by decide)
    have hgcm := quote_ascii (s := js "A256GCM") (by decide)
    have hname := quote_ascii (s := js "dek") (by decide)
    have hname' := quote_ascii (s := js "payload") (by decide)
    intro c hc
    rw [envelopeV1, Json.stringify, Json.stringifyEntries, Json.stringifyEntries,
      Json.stringifyEntries, Json.stringify] at hc
    simp only [List.cons_append, List.mem_cons, List.mem_append, List.not_mem_nil, or_false] at hc
    rcases hc with hc | (hc | hc | hc | hc | hc | hc | hc | hc | hc | hc | hc) | hc
    · omega
    · exact halg c hc
    · omega
    · exact hgcm c hc
    · omega
    · exact hname c hc
    · omega
    · exact h₁ c hc
    · omega
    · exact hname' c hc
    · omega
    · exact h₂ c hc
    · omega
  unfold readEnvelope writeEnvelope
  rw [Base64.decode_encode, Utf8.decode_encode (Utf8.wellFormed_of_ascii hascii),
    Json.parse_stringify hwritable]

/-! ### Credentials -/

/-- The ciphertext is an envelope that opens to the plaintext under the master key. -/
def Opens (master : Bytes) (plaintext ciphertext : JsString) : Prop :=
  ∃ dek payload key, dek.Ascii ∧ payload.Ascii ∧ ciphertext = writeEnvelope (envelopeV1 dek payload) ∧
    openBox master (some dek.toJson) = .ok key ∧
    openBox key (some payload.toJson) = .ok (Utf8.encode plaintext)

variable {keyring : Keyring} {plaintext ciphertext : JsString} {version : ℤ}
  {master target dek : Random 32} {iv iv' : Random 12} {s : Sealed}

/-- Encrypting makes an envelope that opens under the current master key. -/
theorem encryptCredential_opens (plaintext : JsString) (dek : Random 32) (iv iv' : Random 12)
    (hgcm : Gcm.Lawful)
    (hmaster : keyring.keys.get keyring.currentVersion = some master.val) :
    ∃ s, encryptCredential plaintext keyring dek iv iv' = .ok s ∧
      s.keyVersion = keyring.currentVersion ∧ Opens master.val plaintext s.ciphertext := by
  obtain ⟨wrapped, hwrapped⟩ := sealBox_ok master dek.val iv
  obtain ⟨payload, hpayload⟩ := sealBox_ok dek (Utf8.encode plaintext) iv'
  simp only [encryptCredential, hmaster, hwrapped, hpayload, bind, Except.bind]
  refine ⟨_, rfl, rfl, wrapped, payload, dek.val, sealBox_spec hwrapped, sealBox_spec hpayload,
    rfl, openBox_sealBox hgcm hwrapped, openBox_sealBox hgcm hpayload⟩

/-- A well-formed plaintext comes out of the envelope it went into. -/
theorem decryptCredential_opens (hplain : Utf8.WellFormed plaintext)
    (hmaster : keyring.keys.get version = some master.val)
    (h : Opens master.val plaintext ciphertext) :
    decryptCredential ciphertext version keyring = .ok plaintext := by
  obtain ⟨wrapped, payload, key, hwrapped, hpayload, rfl, hopen, hopen'⟩ := h
  have halg : (envelopeV1 wrapped payload).field "alg" = some (.str (js "A256GCM")) := rfl
  have hdek : (envelopeV1 wrapped payload).field "dek" = some wrapped.toJson := rfl
  have hpay : (envelopeV1 wrapped payload).field "payload" = some payload.toJson := rfl
  unfold envelopeV1 at halg hdek hpay
  simp only [decryptCredential, hmaster, readEnvelope_writeEnvelope hwrapped hpayload]
  simp only [envelopeV1, halg, hdek, hpay, if_true, hopen, hopen', bind, Except.bind]
  exact congrArg Except.ok (Utf8.decode_encode hplain)

/-- Wrapping again makes an envelope that opens to the same under the current master key. -/
theorem rewrapCredential_opens (iv : Random 12) (hgcm : Gcm.Lawful)
    (hmaster : keyring.keys.get version = some master.val)
    (htarget : keyring.keys.get keyring.currentVersion = some target.val)
    (h : Opens master.val plaintext ciphertext) :
    ∃ s, rewrapCredential ciphertext version keyring iv = .ok s ∧
      s.keyVersion = keyring.currentVersion ∧ Opens target.val plaintext s.ciphertext := by
  obtain ⟨wrapped, payload, key, hwrapped, hpayload, rfl, hopen, hopen'⟩ := h
  obtain ⟨again, hagain⟩ := sealBox_ok target key iv
  have hdek : (envelopeV1 wrapped payload).field "dek" = some wrapped.toJson := rfl
  unfold envelopeV1 at hdek
  simp only [rewrapCredential, hmaster, htarget, readEnvelope_writeEnvelope hwrapped hpayload]
  simp only [envelopeV1, hdek, hopen, hagain, bind, Except.bind]
  exact ⟨_, rfl, rfl, again, payload, key, sealBox_spec hagain, hpayload, rfl,
    openBox_sealBox hgcm hagain, hopen'⟩

end VibeRouter
