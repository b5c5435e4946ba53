import VibeRouter.Db.Schema
import VibeRouter.Lib.Rows

/-! # The credentials table

`provider_credentials`.  A table is its list of rows; the key of a row is its id. -/

namespace VibeRouter

inductive CredentialStatus
  | active | grace | revoked
deriving DecidableEq

/-- A row of `provider_credentials`. -/
structure CredentialRow where
  id : Uuid
  providerId : Uuid
  ciphertext : JsString
  keyVersion : ℤ
  last4 : JsString
  status : CredentialStatus
  graceUntil : Option ℕ
  createdBy : Option Uuid
  rotatedFrom : Option Uuid
  createdAt : ℕ
deriving DecidableEq

end VibeRouter
