import VibeRouter.AdminApi.Sessions
import VibeRouter.Gateway.Errors
import VibeRouter.Lib.Code
import VibeRouter.Lib.Rows
import VibeRouter.Lib.Zod
import VibeRouter.Vault.Crypto

/-! # Logging in and changing credentials

The routes under `/admin-api/auth`.  A login reads the hash of the user's password, awaits the
check and then creates a session; a change of credentials awaits the check and the update, and then
drops every session of the user. -/

namespace VibeRouter

open Effects

/-! ### Operations -/

structure UserRow where
  id : Uuid
  firmId : Uuid
  role : UserRole
  email : Option JsString
  displayName : Option JsString
  passwordHash : Option JsString

/-- `db.update(users).set(set)`; `none` leaves a column as it is. -/
structure UserSet where
  email : Option JsString
  passwordHash : Option JsString

def UserSet.apply (set : UserSet) (row : UserRow) : UserRow :=
  { row with email := set.email <|> row.email, passwordHash := set.passwordHash <|> row.passwordHash }

/-- The `config_change` that is written to the audit log. -/
structure CredentialsAudit where
  firmId : Uuid
  userId : Uuid
  entityId : Uuid
  email : JsString
  passwordChanged : Bool
  emailBefore : JsString

/-- The store is called between two awaits, so each call of it is one operation. -/
inductive AuthOp
  | randomBytes (n : ℕ)
  | scrypt (password : JsString) (salt : Bytes) (n r p : JsString)
  | dummyPasswordHash
  | findUserByEmail (email : JsString)
  | findUserById (id : Uuid)
  | findFirm (id : Uuid)
  | updateUser (id : Uuid) (set : UserSet)
  | audit (entry : CredentialsAudit)
  | getSession (cookie : Option JsString)
  | createSession (data : Login)
  | destroySession (cookie : Option JsString)
  | destroyByUser (userId : Uuid)

/-- What is awaited may be rejected; a firm is answered with its name. -/
@[reducible] def AuthOp.Answer : AuthOp → Type
  | randomBytes n => Random n
  | scrypt _ _ _ _ _ => Except Thrown Bytes
  | dummyPasswordHash => Except Thrown JsString
  | findUserByEmail _ => Except Thrown (Option UserRow)
  | findUserById _ => Except Thrown (Option UserRow)
  | findFirm _ => Except Thrown (Option JsString)
  | updateUser _ _ => Except Thrown Unit
  | audit _ => Unit
  | getSession _ => Option SessionData
  | createSession _ => JsString
  | destroySession _ => Unit
  | destroyByUser _ => ℕ

abbrev Auth (α : Type) : Type := Code AuthOp AuthOp.Answer Unit Thrown α

namespace Auth

def op (e : AuthOp) : Auth e.Answer := Code.perform e

/-- `await`, of an answer that may be a rejection. -/
def await {α : Type} (c : Auth (Except Thrown α)) : Auth α := do
  Code.ofExcept (← c)

/-! ### Passwords -/

def hashPassword (password : JsString) : Auth JsString := do
  let salt ← op (.randomBytes 16)
  let key ← await (op (.scrypt password salt.1 (js "16384") (js "8") (js "1")))
  pure (js "scrypt$16384$8$1$" ++ Base64.encode salt.1 ++ js "$" ++ Base64.encode key)

def verifyPassword (password stored : JsString) : Auth Bool :=
  match stored.splitOn 36 with
  | [scheme, n, r, p, saltB64, hashB64] =>
      if scheme = js "scrypt" then do
        let actual ← await (op (.scrypt password (Base64.decode saltB64) n r p))
        pure (actual = Base64.decode hashB64)
      else pure false
  | _ => pure false

/-! ### Bodies -/

open Zod

/-- `.min(least)`; a length is counted in code units. -/
def minLength (least : ℕ) (message : String) (s : JsString) : Option String :=
  if least ≤ s.length then none else some message

def maxLength (most : ℕ) (s : JsString) : Option String :=
  if s.length ≤ most then none
  else some ("String must contain at most " ++ toString most ++ " character(s)")

def isEmail [AuthPlatform] (s : JsString) : Option String :=
  if AuthPlatform.isEmail s then none else some "Invalid email"

def atLeastOne : JsString → Option String := minLength 1 "String must contain at least 1 character(s)"

structure LoginBody where
  email : JsString
  password : JsString

def loginSchema [AuthPlatform] : Schema LoginBody :=
  object fun body => do
    let email ← member (checked string [isEmail]) "email" body
    let password ← member (checked string [atLeastOne]) "password" body
    pure ⟨email, password⟩

structure ChangeBody where
  currentPassword : JsString
  newEmail : Option JsString
  newPassword : Option JsString

def changeSchema [AuthPlatform] : Schema ChangeBody :=
  checked (object fun body => do
      let currentPassword ← member (checked string [atLeastOne]) "currentPassword" body
      let newEmail ← member (optional (checked string [isEmail, maxLength 254])) "newEmail" body
      let newPassword ← member (optional (checked string
        [minLength 12 "new password must be at least 12 characters", maxLength 1024]))
        "newPassword" body
      pure ⟨currentPassword, newEmail, newPassword⟩)
    [fun b => if b.newEmail.isSome || b.newPassword.isSome then none
      else some "nothing to change — provide newEmail and/or newPassword"]

/-! ### Routes -/

inductive Reply
  | refused (status : ℕ) (e : RouterError)
  | loggedIn (cookie : JsString) (email : Option JsString) (role : UserRole)
      (displayName : Option JsString)
  | loggedOut
  | me (email : JsString) (role : UserRole) (firm : Option JsString)
  | changed
deriving DecidableEq

def fail (code : ErrorCode) (message : String) : Auth Reply :=
  let e : RouterError := { code, message }
  pure (.refused e.status e)

/-- A hash that is there and is not empty. -/
def UserRow.hash (user : UserRow) : Option JsString := user.passwordHash.filter fun h => h ≠ []

/-- `user?.passwordHash ?? (await dummyPasswordHash())`. -/
def storedHash (user : Option UserRow) : Auth JsString :=
  match user.bind UserRow.passwordHash with
  | some hash => pure hash
  | none => await (op .dummyPasswordHash)

def login [AuthPlatform] (body : Option Json) : Auth Reply :=
  match loginSchema body with
  | .error _ => fail .invalid_request "email + password required"
  | .ok body => do
      let user ← await (op (.findUserByEmail body.email))
      let hash ← storedHash user
      let passwordOk ← verifyPassword body.password hash
      match user.filter fun user => (UserRow.hash user).isSome && passwordOk with
      | none => fail .auth_error "invalid credentials"
      | some user => do
          let cookie ← op (.createSession ⟨user.id, user.firmId, user.email.getD [], user.role⟩)
          pure (.loggedIn cookie user.email user.role user.displayName)

def logout (cookie : Option JsString) : Auth Reply := do
  let _ ← op (.destroySession cookie)
  pure .loggedOut

def me (cookie : Option JsString) : Auth Reply := do
  match ← op (.getSession cookie) with
  | none => fail .auth_error "not logged in"
  | some session => do
      let firm ← await (op (.findFirm session.firmId))
      pure (.me session.email session.role firm)

/-- `newEmail && newEmail !== user.email`, and another user has it. -/
def emailTaken (user : UserRow) (newEmail : Option JsString) : Auth Bool :=
  match newEmail.filter fun email => some email ≠ user.email with
  | none => pure false
  | some email => do
      let taken ← await (op (.findUserByEmail email))
      pure taken.isSome

def newHash (newPassword : Option JsString) : Auth (Option JsString) :=
  match newPassword with
  | none => pure none
  | some password => do
      let hash ← hashPassword password
      pure (some hash)

/-- The rest of the route, for a body and a current password that are right. -/
def applyChange (session : SessionData) (user : UserRow) (body : ChangeBody) : Auth Reply := do
  let passwordHash ← newHash body.newPassword
  await (op (.updateUser user.id ⟨body.newEmail, passwordHash⟩))
  op (.audit
    { firmId := session.firmId
      userId := session.userId
      entityId := user.id
      email := (body.newEmail <|> user.email).getD []
      passwordChanged := body.newPassword.isSome
      emailBefore := user.email.getD [] })
  let _ ← op (.destroyByUser user.id)
  pure .changed

def changeFor (session : SessionData) (body : ChangeBody) : Auth Reply := do
  let user ← await (op (.findUserById session.userId))
  match user.bind fun user => (UserRow.hash user).map fun hash => (user, hash) with
  | none => fail .auth_error "current password is incorrect"
  | some (user, hash) => do
      if ← verifyPassword body.currentPassword hash then
        if ← emailTaken user body.newEmail then
          fail .invalid_request "that email is already in use"
        else applyChange session user body
      else fail .auth_error "current password is incorrect"

/-- `vibeAdmin` is the header `x-vibe-admin`. -/
def changeCredentials [AuthPlatform] (cookie vibeAdmin : Option JsString) (body : Option Json) :
    Auth Reply := do
  match (← op (.getSession cookie)).filter fun session => session.role = .admin with
  | none => pure (.refused 401 { code := .auth_error, message := "admin session required" })
  | some session =>
      if vibeAdmin = some (js "1") then match changeSchema body with
        | .error issue => fail .invalid_request issue.message
        | .ok body => changeFor session body
      else pure (.refused 403 { code := .policy_blocked, message := "missing x-vibe-admin header" })

/-- A request to one of the routes. -/
inductive Call
  | login (body : Option Json)
  | logout (cookie : Option JsString)
  | me (cookie : Option JsString)
  | changeCredentials (cookie vibeAdmin : Option JsString) (body : Option Json)

def Call.run [AuthPlatform] : Call → Auth Reply
  | .login body => Auth.login body
  | .logout cookie => Auth.logout cookie
  | .me cookie => Auth.me cookie
  | .changeCredentials cookie vibeAdmin body => Auth.changeCredentials cookie vibeAdmin body

end Auth

end VibeRouter
