import VibeRouter.Db.Credentials
import VibeRouter.Lib.Code
import VibeRouter.Vault.Crypto

/-! # The credential vault

`CredentialVault`: a credential is added (staged unless it is the provider's first), promoted,
whereupon the one that was active enters a timed grace, and revoked.  Every statement of the
database is an operation of its own; no two of them share a transaction. -/

namespace VibeRouter

open Effects

/-! ### Statements -/

/-- The columns an insertion gives. -/
structure CredentialValues where
  providerId : Uuid
  ciphertext : JsString
  keyVersion : ℤ
  last4 : JsString
  status : CredentialStatus
  createdBy : Option Uuid
  rotatedFrom : Option Uuid

/-- `.set({ status, graceUntil })`; `none` leaves the column as it is. -/
structure StatusSet where
  status : CredentialStatus
  graceUntil : Option (Option ℕ) := none

def StatusSet.apply (set : StatusSet) (row : CredentialRow) : CredentialRow :=
  { row with status := set.status, graceUntil := set.graceUntil.getD row.graceUntil }

/-- What the vault writes to the audit log. -/
inductive VaultAudit
  | create (firmId : Uuid) (provider : String) (id : Uuid) (last4 : JsString)
      (status : CredentialStatus) (keyVersion : ℤ)
  | promote (firmId : Uuid) (provider : String) (id : Uuid) (demoted : Option (Uuid × ℕ))
  | revoke (firmId : Uuid) (provider : String) (id : Uuid) (graceExpired : Bool)

inductive VaultOp
  | now
  | randomBytes (n : ℕ)
  | findProvider (id : Uuid)
  | findActive (providerId : Uuid)
  | findCredential (id : Uuid)
  | insert (values : CredentialValues)
  | update (id : Uuid) (set : StatusSet)
  | revokeExpired (now : ℕ)
  | writeAudit (entry : VaultAudit)

/-- An insertion answers its row, an update the rows it changed. -/
@[reducible] def VaultOp.Answer : VaultOp → Type
  | now => ℕ
  | randomBytes n => Random n
  | findProvider _ => Option ProviderRow
  | findActive _ => Option CredentialRow
  | findCredential _ => Option CredentialRow
  | insert _ => CredentialRow
  | update _ _ => List CredentialRow
  | revokeExpired _ => List CredentialRow
  | writeAudit _ => Unit

abbrev Vault (α : Type) : Type := Code VaultOp VaultOp.Answer Unit Thrown α

namespace Vault

def op (e : VaultOp) : Vault e.Answer := Code.perform e

/-- `throw new RouterError('invalid_request', message)`. -/
def fail {α : Type} (message : String) : Vault α :=
  throw (.router { code := .invalid_request, message })

/-! ### The service -/

structure CredentialMeta where
  id : Uuid
  providerId : Uuid
  last4 : JsString
  status : CredentialStatus
  keyVersion : ℤ
  graceUntil : Option ℕ
  createdAt : ℕ

def toMeta (row : CredentialRow) : CredentialMeta where
  id := row.id
  providerId := row.providerId
  last4 := row.last4
  status := row.status
  keyVersion := row.keyVersion
  graceUntil := row.graceUntil
  createdAt := row.createdAt

/-- What a vault is constructed with. -/
structure Config where
  keyring : Keyring
  graceHours : ℚ

/-- `if (currentActive) { … }`. -/
def demote (currentActive : Option CredentialRow) (graceUntil : ℕ) : Vault Unit :=
  match currentActive with
  | none => pure ()
  | some row => do
      let _ ← op (.update row.id { status := .grace, graceUntil := some (some graceUntil) })
      pure ()

/-- `toMeta(updated!)`. -/
def updatedMeta : List CredentialRow → Vault CredentialMeta
  | row :: _ => pure (toMeta row)
  | [] => throw (.error "TypeError")

/-- The rest of `promote`, for a credential that is neither revoked nor active. -/
def promoteRow (config : Config) (cred : CredentialRow) : Vault CredentialMeta := do
  match ← op (.findProvider cred.providerId) with
  | none => fail "provider not found"
  | some provider => do
      let graceUntil := (← op .now) + (config.graceHours * 3600000).floor.toNat
      let currentActive ← op (.findActive cred.providerId)
      demote currentActive graceUntil
      let updated ← op (.update cred.id { status := .active, graceUntil := some none })
      op (.writeAudit (.promote provider.firmId provider.label cred.id
        (currentActive.map fun row => (row.id, graceUntil))))
      updatedMeta updated

def promote (config : Config) (credentialId : Uuid) : Vault CredentialMeta := do
  match ← op (.findCredential credentialId) with
  | none => fail "credential not found"
  | some cred =>
      if cred.status = .revoked then fail "credential is revoked"
      else if cred.status = .active then pure (toMeta cred)
      else promoteRow config cred

def revoke (credentialId : Uuid) : Vault Unit := do
  match ← op (.findCredential credentialId) with
  | none => fail "credential not found"
  | some cred => do
      let provider ← op (.findProvider cred.providerId)
      let _ ← op (.update credentialId { status := .revoked })
      match provider with
      | none => pure ()
      | some provider =>
          op (.writeAudit (.revoke provider.firmId provider.label credentialId false))

/-- The audit entries of the credentials whose grace is over. -/
def auditExpired : List CredentialRow → Vault Unit
  | [] => pure ()
  | cred :: rest => do
      match ← op (.findProvider cred.providerId) with
      | none => auditExpired rest
      | some provider => do
          op (.writeAudit (.revoke provider.firmId provider.label cred.id true))
          auditExpired rest

def autoRevokeExpired : Vault ℕ := do
  let expired ← op (.revokeExpired (← op .now))
  auditExpired expired
  pure expired.length

/-- The row that `add` inserts: active when no credential of the provider was. -/
def addValues (providerId : Uuid) (plaintext : JsString) (createdBy : Option Uuid)
    (activeExisting : Option CredentialRow) (s : Sealed) : CredentialValues where
  providerId := providerId
  ciphertext := s.ciphertext
  keyVersion := s.keyVersion
  last4 := VibeRouter.last4 plaintext
  status := if activeExisting.isSome then .grace else .active
  createdBy := createdBy
  rotatedFrom := activeExisting.map CredentialRow.id

section

variable [Gcm] [Platform] (config : Config)

def add (providerId : Uuid) (plaintext : JsString) (createdBy : Option Uuid) :
    Vault CredentialMeta := do
  if plaintext.length < 8 then fail "credential too short"
  else do
    match (← op (.findProvider providerId)).filter fun provider => provider.deletedAt.isNone with
    | none => fail "provider not found"
    | some provider => do
        let activeExisting ← op (.findActive providerId)
        let dek ← op (.randomBytes 32)
        let iv ← op (.randomBytes 12)
        let iv' ← op (.randomBytes 12)
        let s ← Code.ofExcept (encryptCredential plaintext config.keyring dek iv iv')
        let row ← op (.insert (addValues providerId plaintext createdBy activeExisting s))
        op (.writeAudit
          (.create provider.firmId provider.label row.id row.last4 row.status row.keyVersion))
        pure (toMeta row)

/-- The key of the active credential; `none` when there is none. -/
def getActiveApiKey (providerId : Uuid) : Vault (Option JsString) := do
  match ← op (.findActive providerId) with
  | none => pure none
  | some cred => do
      let key ← Code.ofExcept (decryptCredential cred.ciphertext cred.keyVersion config.keyring)
      pure (some key)

/-! ### Calls -/

/-- The calls of the vault that write. -/
inductive Call
  | add (providerId : Uuid) (plaintext : JsString) (createdBy : Option Uuid)
  | promote (credentialId : Uuid)
  | revoke (credentialId : Uuid)
  | autoRevokeExpired

/-- A call, whatever it returns. -/
def Call.run : Call → Vault Unit
  | add providerId plaintext createdBy => do
      let _ ← Vault.add config providerId plaintext createdBy
      pure ()
  | promote credentialId => do
      let _ ← Vault.promote config credentialId
      pure ()
  | revoke credentialId => Vault.revoke credentialId
  | autoRevokeExpired => do
      let _ ← Vault.autoRevokeExpired
      pure ()

end

end Vault

end VibeRouter
