import VibeRouter.Gateway.Errors
import VibeRouter.Lib.JsonText
import VibeRouter.Lib.Utf8
import VibeRouter.Platform

/-! # Envelope encryption

A master key wraps a random key of the credential's own, which encrypts the credential;
AES-256-GCM throughout.  The version stored with a credential selects the master key from the
keyring.

The cipher is the runtime's (`Gcm`); what is assumed of it is `Gcm.Lawful`.  Random bytes are
inputs. -/

namespace VibeRouter

/-- `randomBytes(n)`. -/
abbrev Random (n : ℕ) : Type := { bs : Bytes // bs.length = n }

/-- AES-256-GCM. -/
class Gcm where
  /-- The data and the authentication tag of a plaintext, by key and initialization vector. -/
  encrypt : Bytes → Bytes → Bytes → Bytes × Bytes
  /-- The plaintext, by key, initialization vector, tag and data; `none` when `final` throws. -/
  decrypt : Bytes → Bytes → Bytes → Bytes → Option Bytes

/-- What was encrypted under a key is decrypted under that key. -/
def Gcm.Lawful [Gcm] : Prop :=
  ∀ (key : Random 32) (iv : Random 12) (plaintext : Bytes),
    decrypt key.val iv.val (encrypt key.val iv.val plaintext).2
      (encrypt key.val iv.val plaintext).1 = some plaintext

/-! ### Keyrings -/

/-- `Keyring`: the master keys by version. -/
structure Keyring where
  keys : JsMap ℤ Bytes
  currentVersion : ℤ

/-- The variables of the environment that name the master keys. -/
structure KeyEnv where
  MASTER_KEY : Option JsString
  MASTER_KEY_VERSION : Option ℤ
  MASTER_KEY_PREVIOUS : Option JsString
  MASTER_KEY_PREVIOUS_VERSION : Option ℤ

/-- `if (!text)`. -/
def textGiven (s : Option JsString) : Option JsString := s.filter fun text => text ≠ []

def keyringFromEnv (env : KeyEnv) : Except Thrown (Option Keyring) :=
  match textGiven env.MASTER_KEY with
  | none => .ok none
  | some text =>
      let current := Base64.decode text
      if current.length ≠ 32 then
        .error (.error "MASTER_KEY must be 32 bytes base64 (openssl rand -base64 32)")
      else
        let currentVersion := env.MASTER_KEY_VERSION.getD 1
        let keys := JsMap.empty.set currentVersion current
        match textGiven env.MASTER_KEY_PREVIOUS with
        | none => .ok (some { keys, currentVersion })
        | some previous =>
            let prev := Base64.decode previous
            if prev.length ≠ 32 then .error (.error "MASTER_KEY_PREVIOUS must be 32 bytes base64")
            else
              let prevVersion := env.MASTER_KEY_PREVIOUS_VERSION.getD (currentVersion - 1)
              -- a key under the current version would take the place of the current key
              if prevVersion = currentVersion then
                .error (.error "MASTER_KEY_PREVIOUS_VERSION must differ from MASTER_KEY_VERSION")
              else .ok (some { keys := keys.set prevVersion prev, currentVersion })

/-! ### Boxes -/

structure GcmBox where
  iv : JsString
  tag : JsString
  data : JsString

def GcmBox.toJson (box : GcmBox) : Json :=
  .obj [(js "iv", .str box.iv), (js "tag", .str box.tag), (js "data", .str box.data)]

variable [Gcm]

/-- `seal`; the cipher refuses a key of another length. -/
def sealBox (key plaintext : Bytes) (iv : Random 12) : Except Thrown GcmBox :=
  if key.length ≠ 32 then .error (.error "Invalid key length")
  else
    let out := Gcm.encrypt key iv.val plaintext
    .ok { iv := Base64.encode iv.val, tag := Base64.encode out.2, data := Base64.encode out.1 }

/-- `Buffer.from(box[name], 'base64')`; a box or a member that is not there is a `TypeError`. -/
def boxBytes (box : Option Json) (name : String) : Except Thrown Bytes :=
  match box.bind fun b => b.field name with
  | some (.str text) => .ok (Base64.decode text)
  | _ => .error (.error "TypeError")

/-- `open`. -/
def openBox (key : Bytes) (box : Option Json) : Except Thrown Bytes := do
  let iv ← boxBytes box "iv"
  if key.length ≠ 32 then throw (.error "Invalid key length")
  else do
    let tag ← boxBytes box "tag"
    let data ← boxBytes box "data"
    match Gcm.decrypt key iv tag data with
    | some plaintext => pure plaintext
    | none => throw (.error "Unsupported state or unable to authenticate data")

/-! ### Credentials -/

/-- `EnvelopeV1`. -/
def envelopeV1 (dek payload : GcmBox) : Json :=
  .obj [(js "alg", .str (js "A256GCM")), (js "dek", dek.toJson), (js "payload", payload.toJson)]

variable [Platform]

/-- `Buffer.from(JSON.stringify(envelope)).toString('base64')`. -/
def writeEnvelope (envelope : Json) : JsString :=
  Base64.encode (Utf8.encode (Json.stringify Platform.numberText envelope))

/-- `JSON.parse(Buffer.from(ciphertext, 'base64').toString('utf8'))`. -/
def readEnvelope (ciphertext : JsString) : Option Json :=
  Json.parse (Utf8.decode (Base64.decode ciphertext))

/-- A ciphertext and the version of the master key that wraps its key. -/
structure Sealed where
  ciphertext : JsString
  keyVersion : ℤ

def encryptCredential (plaintext : JsString) (keyring : Keyring) (dek : Random 32)
    (iv iv' : Random 12) : Except Thrown Sealed := do
  match keyring.keys.get keyring.currentVersion with
  | none => throw (.error "keyring missing current master key")
  | some master =>
      let wrapped ← sealBox master dek.val iv
      let payload ← sealBox dek.val (Utf8.encode plaintext) iv'
      pure { ciphertext := writeEnvelope (envelopeV1 wrapped payload)
             keyVersion := keyring.currentVersion }

def decryptCredential (ciphertext : JsString) (keyVersion : ℤ) (keyring : Keyring) :
    Except Thrown JsString := do
  match keyring.keys.get keyVersion with
  | none => throw (.error ("no master key for key_version " ++ toString keyVersion))
  | some master =>
      match readEnvelope ciphertext with
      | none => throw (.error "credential envelope is corrupt")
      | some .null => throw (.error "TypeError")
      | some envelope =>
          match envelope.field "alg" with
          | some (.str alg) =>
              if alg = js "A256GCM" then
                let dek ← openBox master (envelope.field "dek")
                let plaintext ← openBox dek (envelope.field "payload")
                pure (Utf8.decode plaintext)
              else throw (.error "unsupported envelope alg")
          | _ => throw (.error "unsupported envelope alg")

/-- Wrap the credential's key again, with the current master key. -/
def rewrapCredential (ciphertext : JsString) (keyVersion : ℤ) (keyring : Keyring)
    (iv : Random 12) : Except Thrown Sealed := do
  match keyring.keys.get keyVersion, keyring.keys.get keyring.currentVersion with
  | some master, some target =>
      match readEnvelope ciphertext with
      | some (.obj es) =>
          let dek ← openBox master ((Json.obj es).field "dek")
          let wrapped ← sealBox target dek iv
          pure { ciphertext := writeEnvelope (.obj (JsMap.assign (js "dek") wrapped.toJson es))
                 keyVersion := keyring.currentVersion }
      -- the text is not JSON, or the envelope has no box to open
      | none => throw (.error "SyntaxError")
      | some _ => throw (.error "TypeError")
  | _, _ => throw (.error "keyring missing source or target master key")

/-- `last4`. -/
def last4 (secret : JsString) : JsString :=
  if secret.length ≤ 4 then js "****" else secret.drop (secret.length - 4)

end VibeRouter
