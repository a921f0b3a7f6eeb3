import Hangang.Framework.Bytes
import Hangang.Framework.Except
import Hangang.Framework.Table
import Mathlib.Data.List.Sort
import Mathlib.Algebra.Group.Nat.Defs

/-! # Administrator Accounts

    The tables of the account store and its transactions. A transaction is atomic and
    serializable: a function from the database it finds to the one it commits. An error
    rolls it back, and one that returns early commits nothing.

    The audit records that account changes append are left out: they can only make a
    transaction fail. -/

open Bytes Except

namespace AdminUsers

inductive Role where
  | admin
  | viewer
  deriving DecidableEq, Repr

/-- A row of `users`, without its key. -/
structure Account where
  username : Bytes
  salt : Bytes
  passwordHash : Bytes
  role : Role
  enabled : Bool
  passwordEpoch : Nat
  deriving DecidableEq, Repr

/-- A row of `sessions`, without its key, the digest of the token. -/
structure Session where
  userId : Nat
  expiresAt : Nat
  createdAt : Nat
  deriving DecidableEq, Repr

structure Db where
  users : Table Nat Account
  sessions : Table Bytes Session
  /-- `admin_audit_meta.next_user_id`. -/
  nextUserId : Nat

structure User where
  id : Nat
  username : Bytes
  role : Role
  enabled : Bool
  deriving DecidableEq, Repr

def Account.user (account : Account) (id : Nat) : User :=
  ⟨id, account.username, account.role, account.enabled⟩

inductive Change where
  | notFound
  | conflict
  | applied
  deriving DecidableEq, Repr

inductive MutationAuthority where
  | system
  | session (token : Bytes)

/-- SHA-256 and Argon2id, which takes the password and the salt and may fail. -/
structure Crypto where
  sha256 : Bytes → Bytes
  argon2 : Bytes → Bytes → Option Bytes

def maxUsers : Nat := 256
def maxSessions : Nat := 4096
def maxSessionsPerUser : Nat := 16
def sessionSeconds : Nat := 8 * 60 * 60
def maxSafeId : Nat := 9007199254740991

/-! ## Validation -/

def validSessionToken (token : Bytes) : Bool :=
  token.length = 43 && token.all fun b => isAsciiAlphanumeric b || b == 45 || b == 95

def validateUsername (username : Bytes) : Except String Unit :=
  ensure (3 ≤ username.length ∧ username.length ≤ 64 ∧
    username.all fun b => isAsciiAlphanumeric b || b == 95 || b == 45 || b == 46)
    "username needs 3..64 ASCII letters, digits, _, - or ."

/-- `char::is_control` of some character: a C0 control, DEL, or a C1 control, which takes
    two bytes. -/
def hasControl : Bytes → Bool
  | [] => false
  | [b] => b < 32 || b == 127
  | b :: c :: rest => b < 32 || b == 127 || (b == 194 && 128 ≤ c && c ≤ 159) || hasControl (c :: rest)

def validatePassword (password : Bytes) : Except String Unit :=
  ensure (12 ≤ password.length ∧ password.length ≤ 1024 ∧ hasControl password = false)
    "password needs 12..1024 bytes without controls"

def Crypto.hashPassword (c : Crypto) (password salt : Bytes) : Except String Bytes :=
  match c.argon2 password salt with
  | some hash => .ok hash
  | none => .error "password derivation failed"

/-! ## Accounts -/

/-- `SELECT … WHERE username = ? COLLATE NOCASE`. -/
def Db.findUser (db : Db) (username : Bytes) : Option (Nat × Account) :=
  (db.users.entries.find? fun entry => eqIgnoreAsciiCase entry.2.username username).map
    fun entry => (entry.1, entry.2)

def Db.enabledAdmins (db : Db) : Nat :=
  (db.users.entries.filter fun entry => entry.2.role = .admin && entry.2.enabled).length

def Db.deleteSessions (db : Db) (id : Nat) : Db :=
  { db with sessions := Table.retain (fun _ session => session.userId ≠ id) db.sessions }

/-- `password_epoch + 1`. Past the range of an integer SQLite stores a real number, which
    cannot be read as an epoch any more. -/
def nextEpoch (epoch : Nat) : Nat := min (epoch + 1) (2 ^ 63)

/-- The insertion of an account. -/
def Db.insertUser (db : Db) (id : Nat) (account : Account) : Except String Db := do
  ensure ((db.users.lookup id).isNone ∧ (db.findUser account.username).isNone)
    "UNIQUE constraint failed"
  .ok { db with users := db.users.insert id account }

/-- `allocate_user_id`. -/
def allocateUserId (db : Db) : Except String (Nat × Db) := do
  ensure (1 ≤ db.nextUserId ∧ db.nextUserId ≤ maxSafeId) "administrator user id exhausted"
  .ok (db.nextUserId, { db with nextUserId := db.nextUserId + 1 })

/-- The account of a session that has not expired. -/
def Db.liveSession (db : Db) (c : Crypto) (now : Nat) (token : Bytes) : Option (Nat × Account) := do
  let session ← db.sessions.lookup (c.sha256 token)
  guard (now < session.expiresAt)
  let account ← db.users.lookup session.userId
  guard (account.enabled = true)
  some (session.userId, account)

section transactions

variable (c : Crypto) (db : Db) (now : Nat)

/-- `session`. -/
def session (token : Bytes) : Option User :=
  if validSessionToken token then
    (db.liveSession c now token).map fun (id, account) => account.user id
  else none

/-- `authorize_mutation`. -/
def authorizeMutation : MutationAuthority → Except String (Option Nat)
  | .system => .ok none
  | .session token => do
    ensure (validSessionToken token) "administrator mutation authority is no longer valid"
    match db.liveSession c now token with
    | none => .error "administrator mutation authority is no longer valid"
    | some (id, account) => do
      ensure (account.role = .admin) "administrator mutation authority is no longer valid"
      .ok (some id)

/-- `bootstrap`. -/
def bootstrap (username password salt : Bytes) : Except String (Db × Option User) := do
  validateUsername username
  validatePassword password
  let hash ← c.hashPassword password salt
  if db.users.size ≠ 0 then .ok (db, none)
  else do
    let (id, tx) ← allocateUserId db
    let account : Account := ⟨username, salt, hash, .admin, true, 1⟩
    let tx ← tx.insertUser id account
    .ok (tx, some (account.user id))

/-- `create`. -/
def create (authority : MutationAuthority) (username password : Bytes) (role : Role)
    (salt : Bytes) : Except String (Db × Option User) := do
  validateUsername username
  validatePassword password
  let hash ← c.hashPassword password salt
  let _ ← authorizeMutation c db now authority
  if db.users.size = 0 ∨ maxUsers ≤ db.users.size ∨ (db.findUser username).isSome then .ok (db, none)
  else do
    let (id, tx) ← allocateUserId db
    let account : Account := ⟨username, salt, hash, role, true, 1⟩
    let tx ← tx.insertUser id account
    .ok (tx, some (account.user id))

/-- The new salt and hash of an update that changes the password. -/
def newPassword (password : Option Bytes) (salt : Bytes) : Except String (Option (Bytes × Bytes)) :=
  match password with
  | none => .ok none
  | some password => do
    validatePassword password
    let hash ← c.hashPassword password salt
    .ok (some (salt, hash))

/-- The account after an update. -/
def Account.updated (account : Account) (role : Role) (enabled : Bool) :
    Option (Bytes × Bytes) → Account
  | some (salt, hash) =>
    { account with
      salt := salt
      passwordHash := hash
      passwordEpoch := nextEpoch account.passwordEpoch
      role := role
      enabled := enabled }
  | none =>
    -- fences password checks that already run outside this transaction
    let securityChanged := enabled ≠ account.enabled ∨ role ≠ account.role
    { account with
      role := role
      enabled := enabled
      passwordEpoch := if securityChanged then nextEpoch account.passwordEpoch
        else account.passwordEpoch }

/-- `update`. -/
def update (authority : MutationAuthority) (id : Nat) (role : Option Role) (enabled : Option Bool)
    (password : Option Bytes) (salt : Bytes) : Except String (Db × Change) := do
  let password ← newPassword c password salt
  let _ ← authorizeMutation c db now authority
  match db.users.lookup id with
  | none => .ok (db, .notFound)
  | some account =>
    let nextRole := role.getD account.role
    let nextEnabled := enabled.getD account.enabled
    if account.role = .admin ∧ account.enabled ∧ (nextRole ≠ .admin ∨ !nextEnabled) ∧
        db.enabledAdmins ≤ 1 then .ok (db, .conflict)
    else
      let tx : Db :=
        { db with users := db.users.insert id (account.updated nextRole nextEnabled password) }
      if password.isSome ∨ !nextEnabled ∨ nextRole ≠ account.role then
        .ok (tx.deleteSessions id, .applied)
      else .ok (tx, .applied)

/-- `delete`; the sessions of the account go with it (`ON DELETE CASCADE`). -/
def delete (authority : MutationAuthority) (id : Nat) : Except String (Db × Change) := do
  let _ ← authorizeMutation c db now authority
  match db.users.lookup id with
  | none => .ok (db, .notFound)
  | some account =>
    if account.role = .admin ∧ account.enabled ∧ db.enabledAdmins ≤ 1 then .ok (db, .conflict)
    else
      let tx : Db := { db with users := db.users.erase id }
      .ok (tx.deleteSessions id, .applied)

/-- `logout`. -/
def logout (token : Bytes) : Db := { db with sessions := db.sessions.erase (c.sha256 token) }

/-! ## Sessions -/

/-- Blobs compare byte by byte. -/
def blobLe : Bytes → Bytes → Bool
  | [], _ => true
  | _ :: _, [] => false
  | a :: x, b :: y => a < b || (a == b && blobLe x y)

/-- The digests of an account's sessions, oldest first. -/
def Db.sessionsByAge (id : Nat) : List Bytes :=
  let own := db.sessions.entries.filter fun entry => entry.2.userId = id
  (own.insertionSort fun a b => a.2.createdAt < b.2.createdAt ∨
    (a.2.createdAt = b.2.createdAt ∧ blobLe a.1 b.1)).map Sigma.fst

def Db.deleteExpired : Db :=
  { db with sessions := Table.retain (fun _ session => now < session.expiresAt) db.sessions }

def Db.deleteDigests (digests : List Bytes) : Db :=
  { db with sessions := Table.retain (fun digest _ => digest ∉ digests) db.sessions }

def Db.insertSession (digest : Bytes) (session : Session) : Except String Db := do
  ensure ((db.sessions.lookup digest).isNone) "UNIQUE constraint failed: sessions.token_hash"
  .ok { db with sessions := db.sessions.insert digest session }

/-- The candidate of a login, and the check that runs outside any transaction. -/
def readCandidate (username : Bytes) : Except String (Option (Nat × Account)) :=
  match db.findUser username with
  | none => .ok none
  | some (id, account) => do
    ensure (account.passwordEpoch < 2 ^ 63) "Invalid column type Real at index: 6"
    .ok (some (id, account))

def checkPassword (candidate : Option (Nat × Account)) (password : Bytes) : Except String Bool :=
  match candidate with
  | none => do
    -- the same work for an unknown name
    let _ ← c.hashPassword password (List.replicate 16 90)
    .ok false
  | some (_, account) => do
    let computed ← c.hashPassword password account.salt
    .ok (account.enabled && computed = account.passwordHash)

/-- `login_candidate`. -/
def loginCandidate (id epoch : Nat) : Option User :=
  match db.users.lookup id with
  | none => none
  | some account =>
    if account.enabled ∧ account.passwordEpoch = epoch then some (account.user id) else none

/-- The transaction of a login, after the password was checked. -/
def insertLogin (id epoch : Nat) (token : Bytes) : Except String (Db × Option User) :=
  match loginCandidate db id epoch with
  | none => .ok (db, none)
  | some user => do
    let tx := db.deleteExpired now
    -- its newest sessions stay, with one slot left for this login
    let own := tx.sessionsByAge user.id
    let tx := tx.deleteDigests (own.take (own.length - (maxSessionsPerUser - 1)))
    if maxSessions ≤ tx.sessions.size then
      match tx.sessionsByAge user.id with
      | [] => .ok (db, none)
      | oldest :: _ => do
        let tx ← (tx.deleteDigests [oldest]).insertSession (c.sha256 token)
          ⟨user.id, now + sessionSeconds, now⟩
        .ok (tx, some user)
    else do
      let tx ← tx.insertSession (c.sha256 token) ⟨user.id, now + sessionSeconds, now⟩
      .ok (tx, some user)

/-- `sso_lease`. -/
def ssoLease (username token : Bytes) : Except String (Db × Option User) := do
  validateUsername username
  match db.findUser username with
  | none => .ok (db, none)
  | some (id, account) =>
    if !account.enabled then .ok (db, none)
    else
      let tx := db.deleteExpired now
      if maxSessions ≤ tx.sessions.size ∨ maxSessionsPerUser ≤ (tx.sessionsByAge id).length then
        .ok (db, none)
      else do
        let tx ← tx.insertSession (c.sha256 token) ⟨id, now + 5, now⟩
        .ok (tx, some (account.user id))

end transactions

end AdminUsers
