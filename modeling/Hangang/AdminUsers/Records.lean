import Hangang.AdminUsers.Transactions
import Hangang.AdminUsers.Journal
import Hangang.Framework.Machine

/-! # The Account Store as a Whole

    Accounts and sessions, the audit history and the journal are tables of one database, and
    each call is one transaction on them: it commits all that it writes, or nothing. The machine
    below takes the calls in any order, from any number of callers; clocks, salts and random
    identities are part of the call. -/

open Bytes Except ConfigStore Paging

namespace AdminUsers

structure Records where
  accounts : Db
  audit : Audit
  journal : Journal

def MutationAuthority.actorKind : MutationAuthority → AuditActorKind
  | .system => .system
  | .session _ => .account

/-- `authorize_mutation`, and who is recorded. -/
def authorize (c : Crypto) (db : Db) (now : Nat) (authority : MutationAuthority) :
    Except String Actor := do
  let userId ← authorizeMutation c db now authority
  .ok ⟨authority.actorKind, userId⟩

/-- What is recorded of an account. -/
def Db.auditState (db : Db) (id : Nat) : Option AuditUserState :=
  (db.users.lookup id).map fun account => ⟨account.role, account.enabled⟩

inductive Call where
  | bootstrap (nowMs : Nat) (username password salt : Bytes)
  | create (now nowMs : Nat) (authority : MutationAuthority) (username password : Bytes)
      (role : Role) (salt : Bytes)
  | update (now nowMs : Nat) (authority : MutationAuthority) (id : Nat) (role : Option Role)
      (enabled : Option Bool) (password : Option Bytes) (salt : Bytes)
  | delete (now nowMs : Nat) (authority : MutationAuthority) (id : Nat)
  /-- The transaction of a login whose password was checked for this account and epoch. -/
  | login (now id epoch : Nat) (token : Bytes)
  | ssoLease (now : Nat) (username token : Bytes)
  | logout (token : Bytes)
  | setAuditPolicy (now nowMs timeUnixMs : Nat) (authority : MutationAuthority)
      (expectedRevision : Nat) (policy : AuditPolicy)
  | pruneAudit (now nowMs : Nat) (authority : MutationAuthority) (throughId expectedLatestId : Nat)
  | acceptConfig (now nowMs : Nat) (authority : MutationAuthority) (randomId : Bytes)
      (request : ConfigAcceptRequest)
  | finishConfig (nowMs : Nat) (operationId : Bytes) (state : ConfigOperationState)
  | prepareConfigRelease (now nowMs : Nat) (authority : MutationAuthority)
      (randomId operationId : Bytes) (receipt : SequencedCommitReceipt)
  | acknowledgeConfigRelease (nowMs : Nat) (work : ConfigReleaseWork)
  | pruneConfigOperations (now nowMs : Nat) (authority : MutationAuthority)
      (throughId expectedLatestId expectedHistoryRevision : Nat)
  /-- The store fails, or a call is given up before its transaction. -/
  | fault

section calls

variable {Config : Type} (c : Crypto) (json : AuditPolicy → Bytes) (f : Format Config)

/-! ## Calls -/

/-- An account change commits together with its record. -/
def Records.commitAccount (s : Records) (accounts : Db) (record : AuditRecord) :
    Except String Records := do
  let audit ← appendAccountAudit json s.audit record
  .ok
    { s with
      accounts := accounts
      audit := audit }

def Records.bootstrap (s : Records) (nowMs : Nat) (username password salt : Bytes) :
    Except String (Records × Option User) := do
  match ← AdminUsers.bootstrap c s.accounts username password salt with
  | (_, none) => .ok (s, none)
  | (accounts, some user) =>
    let (audit, _) ← appendAudit json s.audit (auditRecord nowMs .bootstrap ⟨.system, none⟩
      (some user.id) none (some ⟨.admin, true⟩) true 1 none)
    let s :=
      { s with
        accounts := accounts
        audit := audit }
    .ok (s, some user)

def Records.create (s : Records) (now nowMs : Nat) (authority : MutationAuthority)
    (username password : Bytes) (role : Role) (salt : Bytes) :
    Except String (Records × Option User) := do
  match ← AdminUsers.create c s.accounts now authority username password role salt with
  | (_, none) => .ok (s, none)
  | (accounts, some user) =>
    let actor ← authorize c s.accounts now authority
    let s ← s.commitAccount json accounts
      (auditRecord nowMs .create actor (some user.id) none (some ⟨role, true⟩) true 1 none)
    .ok (s, some user)

def Records.update (s : Records) (now nowMs : Nat) (authority : MutationAuthority) (id : Nat)
    (role : Option Role) (enabled : Option Bool) (password : Option Bytes) (salt : Bytes) :
    Except String (Records × Change) := do
  match ← AdminUsers.update c s.accounts now authority id role enabled password salt with
  | (accounts, .applied) =>
    let actor ← authorize c s.accounts now authority
    let s ← s.commitAccount json accounts (auditRecord nowMs .update actor (some id)
      (s.accounts.auditState id) (accounts.auditState id) password.isSome 1 none)
    .ok (s, .applied)
  | (_, change) => .ok (s, change)

def Records.delete (s : Records) (now nowMs : Nat) (authority : MutationAuthority) (id : Nat) :
    Except String (Records × Change) := do
  match ← AdminUsers.delete c s.accounts now authority id with
  | (accounts, .applied) =>
    let actor ← authorize c s.accounts now authority
    let s ← s.commitAccount json accounts
      (auditRecord nowMs .delete actor (some id) (s.accounts.auditState id) none false 1 none)
    .ok (s, .applied)
  | (_, change) => .ok (s, change)

/-- `login` and `sso_lease`: a transaction that was refused commits nothing. -/
def Records.commitSession (s : Records) : Db × Option User → Records × Option User
  | (accounts, some user) => ({ s with accounts := accounts }, some user)
  | (_, none) => (s, none)

def Records.login (s : Records) (now id epoch : Nat) (token : Bytes) :
    Except String (Records × Option User) :=
  (insertLogin c s.accounts now id epoch token).map s.commitSession

def Records.ssoLease (s : Records) (now : Nat) (username token : Bytes) :
    Except String (Records × Option User) :=
  (AdminUsers.ssoLease c s.accounts now username token).map s.commitSession

def Records.setAuditPolicy (s : Records) (now nowMs timeUnixMs : Nat)
    (authority : MutationAuthority) (expectedRevision : Nat) (policy : AuditPolicy) :
    Except String Records := do
  policy.validate json
  ensure (expectedRevision ≤ maxSafeId) "invalid account audit policy revision"
  let actor ← authorize c s.accounts now authority
  let audit ← AdminUsers.setAuditPolicy json s.audit actor nowMs timeUnixMs expectedRevision policy
  .ok { s with audit := audit }

def Records.pruneAudit (s : Records) (now nowMs : Nat) (authority : MutationAuthority)
    (throughId expectedLatestId : Nat) : Except String Records := do
  let actor ← authorize c s.accounts now authority
  let audit ← AdminUsers.pruneAudit json s.audit actor nowMs throughId expectedLatestId
  .ok { s with audit := audit }

def Records.auditPage (s : Records) (now : Nat) (authority : MutationAuthority)
    (after limit : Nat) : Except String AuditPage := do
  ensure (after ≤ maxSafeId ∧ 1 ≤ limit ∧ limit ≤ 100) "invalid audit page bounds"
  let _ ← authorize c s.accounts now authority
  AdminUsers.auditPage json s.audit after limit

def Records.acceptConfig (s : Records) (now nowMs : Nat) (authority : MutationAuthority)
    (randomId : Bytes) (request : ConfigAcceptRequest) :
    Except String (Records × ConfigOperation) := do
  request.validate
  let actor ← authorize c s.accounts now authority
  let (journal, record) ← AdminUsers.acceptConfig f s.journal actor nowMs randomId request
  .ok ({ s with journal := journal }, record)

def Records.finishConfig (s : Records) (nowMs : Nat) (operationId : Bytes)
    (state : ConfigOperationState) : Except String (Records × ConfigOperation) := do
  let (journal, record) ← AdminUsers.finishConfig f s.journal nowMs operationId state
  .ok ({ s with journal := journal }, record)

def Records.prepareConfigRelease (s : Records) (now nowMs : Nat) (authority : MutationAuthority)
    (randomId operationId : Bytes) (receipt : SequencedCommitReceipt) :
    Except String (Records × ConfigReleaseWork) := do
  ensure (validHex operationId 32) "local config operation state conflict"
  let _ ← authorize c s.accounts now authority
  let (journal, work) ←
    AdminUsers.prepareConfigRelease f s.journal nowMs randomId operationId receipt
  .ok ({ s with journal := journal }, work)

def Records.acknowledgeConfigRelease (s : Records) (nowMs : Nat) (work : ConfigReleaseWork) :
    Except String (Records × ConfigReleaseWork) := do
  let (journal, work) ← AdminUsers.acknowledgeConfigRelease f s.journal nowMs work
  .ok ({ s with journal := journal }, work)

def Records.pruneConfigOperations (s : Records) (now nowMs : Nat) (authority : MutationAuthority)
    (throughId expectedLatestId expectedHistoryRevision : Nat) :
    Except String (Records × Nat × Nat) := do
  let actor ← authorize c s.accounts now authority
  let (journal, deleted, unresolved) ← AdminUsers.pruneConfigOperations f s.journal throughId
    expectedLatestId expectedHistoryRevision
  let (audit, _) ← appendAudit json s.audit (auditRecord nowMs .configOperationsPrune actor none
    none none false deleted (some throughId))
  let s :=
    { s with
      audit := audit
      journal := journal }
  .ok (s, deleted, unresolved)

/-- The transaction of a call, and whether the call was accepted. -/
def Records.perform (s : Records) : Call → Except String (Records × Bool)
  | .bootstrap nowMs username password salt =>
    (s.bootstrap c json nowMs username password salt).map fun r => (r.1, r.2.isSome)
  | .create now nowMs authority username password role salt =>
    (s.create c json now nowMs authority username password role salt).map fun r =>
      (r.1, r.2.isSome)
  | .update now nowMs authority id role enabled password salt =>
    (s.update c json now nowMs authority id role enabled password salt).map fun r =>
      (r.1, r.2 = .applied)
  | .delete now nowMs authority id =>
    (s.delete c json now nowMs authority id).map fun r => (r.1, r.2 = .applied)
  | .login now id epoch token => (s.login c now id epoch token).map fun r => (r.1, r.2.isSome)
  | .ssoLease now username token =>
    (s.ssoLease c now username token).map fun r => (r.1, r.2.isSome)
  | .logout token => .ok ({ s with accounts := logout c s.accounts token }, true)
  | .setAuditPolicy now nowMs timeUnixMs authority expectedRevision policy =>
    (s.setAuditPolicy c json now nowMs timeUnixMs authority expectedRevision policy).map fun s =>
      (s, true)
  | .pruneAudit now nowMs authority throughId expectedLatestId =>
    (s.pruneAudit c json now nowMs authority throughId expectedLatestId).map fun s => (s, true)
  | .acceptConfig now nowMs authority randomId request =>
    (s.acceptConfig c f now nowMs authority randomId request).map fun r => (r.1, true)
  | .finishConfig nowMs operationId state =>
    (s.finishConfig f nowMs operationId state).map fun r => (r.1, true)
  | .prepareConfigRelease now nowMs authority randomId operationId receipt =>
    (s.prepareConfigRelease c f now nowMs authority randomId operationId receipt).map fun r =>
      (r.1, true)
  | .acknowledgeConfigRelease nowMs work =>
    (s.acknowledgeConfigRelease f nowMs work).map fun r => (r.1, true)
  | .pruneConfigOperations now nowMs authority throughId expectedLatestId history =>
    (s.pruneConfigOperations c json f now nowMs authority throughId expectedLatestId history).map
      fun r => (r.1, true)
  | .fault => .error "disk I/O error"

/-- What a call leaves: an error rolls back. -/
def Records.next (s : Records) (call : Call) : Records :=
  match s.perform c json f call with
  | .ok (s', _) => s'
  | .error _ => s

/-- A store as `open` creates it, around the accounts of an older version. -/
def Records.created (accounts : Db) (nowMs : Nat) (authorityId : Bytes) : Records :=
  ⟨accounts, Audit.initial nowMs accounts.users.size, Journal.initial f authorityId⟩

/-- The store, with calls in any order. -/
def records : Machine Records Call where
  step s call := some (s.next c json f call)

end calls

/-! ## What each call writes -/

/-- An account change that commits, and the account. -/
inductive Mutation (c : Crypto) (db : Db) : Call → Db → AuditAction → Nat → Prop where
  | create {now nowMs : Nat} {authority : MutationAuthority} {username password : Bytes}
      {role : Role} {salt : Bytes} {db' : Db} {user : User}
      (h : create c db now authority username password role salt = .ok (db', some user)) :
      Mutation c db (.create now nowMs authority username password role salt) db' .create user.id
  | update {now nowMs : Nat} {authority : MutationAuthority} {id : Nat} {role : Option Role}
      {enabled : Option Bool} {password : Option Bytes} {salt : Bytes} {db' : Db}
      (h : update c db now authority id role enabled password salt = .ok (db', .applied)) :
      Mutation c db (.update now nowMs authority id role enabled password salt) db' .update id
  | delete {now nowMs : Nat} {authority : MutationAuthority} {id : Nat} {db' : Db}
      (h : delete c db now authority id = .ok (db', .applied)) :
      Mutation c db (.delete now nowMs authority id) db' .delete id

/-- A call that writes sessions only. -/
inductive SessionCall (c : Crypto) (db : Db) : Call → Db → Prop where
  | login {now id epoch : Nat} {token : Bytes} {db' : Db} {user : User}
      (h : insertLogin c db now id epoch token = .ok (db', some user)) :
      SessionCall c db (.login now id epoch token) db'
  | ssoLease {now : Nat} {username token : Bytes} {db' : Db} {user : User}
      (h : ssoLease c db now username token = .ok (db', some user)) :
      SessionCall c db (.ssoLease now username token) db'
  | logout {token : Bytes} : SessionCall c db (.logout token) (logout c db token)

/-- A call that writes the journal only. -/
inductive JournalCall {Config : Type} (f : Format Config) (journal : Journal) :
    Call → Journal → Prop where
  | accept {now nowMs : Nat} {authority : MutationAuthority} {actor : Actor} {randomId : Bytes}
      {request : ConfigAcceptRequest} {journal' : Journal} {record : ConfigOperation}
      (h : acceptConfig f journal actor nowMs randomId request = .ok (journal', record)) :
      JournalCall f journal (.acceptConfig now nowMs authority randomId request) journal'
  | finish {nowMs : Nat} {operationId : Bytes} {state : ConfigOperationState}
      {journal' : Journal} {record : ConfigOperation}
      (h : finishConfig f journal nowMs operationId state = .ok (journal', record)) :
      JournalCall f journal (.finishConfig nowMs operationId state) journal'
  | prepare {now nowMs : Nat} {authority : MutationAuthority} {randomId operationId : Bytes}
      {receipt : SequencedCommitReceipt} {journal' : Journal} {work : ConfigReleaseWork}
      (h : prepareConfigRelease f journal nowMs randomId operationId receipt =
        .ok (journal', work)) :
      JournalCall f journal
        (.prepareConfigRelease now nowMs authority randomId operationId receipt) journal'
  | acknowledge {nowMs : Nat} {work work' : ConfigReleaseWork} {journal' : Journal}
      (h : acknowledgeConfigRelease f journal nowMs work = .ok (journal', work')) :
      JournalCall f journal (.acknowledgeConfigRelease nowMs work) journal'

/-- **Effects**: what a call that ends leaves, and whether it was accepted. -/
inductive Effect {Config : Type} (c : Crypto) (json : AuditPolicy → Bytes) (f : Format Config)
    (s : Records) : Call → Records → Bool → Prop where
  | refused (call : Call) : Effect c json f s call s false
  | bootstrap {nowMs : Nat} {username password salt : Bytes} {accounts : Db} {user : User}
      {audit : Audit} {record row : AuditRecord}
      (h : bootstrap c s.accounts username password salt = .ok (accounts, some user))
      (haction : record.action = .bootstrap)
      (happended : Appended json s.audit audit record row) :
      Effect c json f s (.bootstrap nowMs username password salt)
        { s with
          accounts := accounts
          audit := audit } true
  | mutation {call : Call} {accounts : Db} {action : AuditAction} {id : Nat} {audit : Audit}
      {record : AuditRecord} (h : Mutation c s.accounts call accounts action id)
      (haction : record.action = action) (htarget : record.targetUserId = some id)
      (haudit : appendAccountAudit json s.audit record = .ok audit) :
      Effect c json f s call
        { s with
          accounts := accounts
          audit := audit } true
  | session {call : Call} {accounts : Db} (h : SessionCall c s.accounts call accounts) :
      Effect c json f s call { s with accounts := accounts } true
  | setAuditPolicy {now nowMs timeUnixMs expectedRevision : Nat} {authority : MutationAuthority}
      {actor : Actor} {policy : AuditPolicy} {audit : Audit}
      (h : setAuditPolicy json s.audit actor nowMs timeUnixMs expectedRevision policy =
        .ok audit) :
      Effect c json f s (.setAuditPolicy now nowMs timeUnixMs authority expectedRevision policy)
        { s with audit := audit } true
  | pruneAudit {now nowMs throughId expectedLatestId : Nat} {authority : MutationAuthority}
      {actor : Actor} {audit : Audit}
      (h : pruneAudit json s.audit actor nowMs throughId expectedLatestId = .ok audit) :
      Effect c json f s (.pruneAudit now nowMs authority throughId expectedLatestId)
        { s with audit := audit } true
  | journal {call : Call} {journal : Journal} (h : JournalCall f s.journal call journal) :
      Effect c json f s call { s with journal := journal } true
  | pruneConfigOperations {now nowMs throughId expectedLatestId history deleted unresolved : Nat}
      {authority : MutationAuthority} {journal : Journal} {audit : Audit}
      {record row : AuditRecord}
      (h : pruneConfigOperations f s.journal throughId expectedLatestId history =
        .ok (journal, deleted, unresolved))
      (haction : record.action = .configOperationsPrune)
      (happended : Appended json s.audit audit record row) :
      Effect c json f s
        (.pruneConfigOperations now nowMs authority throughId expectedLatestId history)
        { s with
          audit := audit
          journal := journal } true

variable {Config : Type} {c : Crypto} {json : AuditPolicy → Bytes} {f : Format Config}
  {s s' : Records} {call : Call} {accepted : Bool}

theorem commitAccount_eq_ok {accounts : Db} {record : AuditRecord}
    (h : s.commitAccount json accounts record = .ok s') :
    ∃ audit, appendAccountAudit json s.audit record = .ok audit ∧ s' =
      { s with
        accounts := accounts
        audit := audit } := by
  obtain ⟨audit, haudit, h⟩ := bind_eq_ok.mp h
  exact ⟨audit, haudit, (Except.ok.inj h).symm⟩

theorem commitSession_eq {s : Records} {r : Db × Option User} :
    (∃ db user, r = (db, some user) ∧
      s.commitSession r = ({ s with accounts := db }, some user)) ∨
      s.commitSession r = (s, none) := by
  obtain ⟨db, user⟩ := r
  cases user with
  | none => exact .inr rfl
  | some user => exact .inl ⟨db, user, rfl, rfl⟩

/-- A call that ends has run its transaction. -/
theorem ended_eq_ok {α : Type} {result : Except String (Records × α)} {g : Records × α → Bool}
    (h : (result.map fun r => (r.1, g r)) = .ok (s', accepted)) :
    ∃ r, result = .ok r ∧ r.1 = s' ∧ g r = accepted := by
  obtain ⟨r, hresult, heq⟩ := map_eq_ok.mp h
  exact ⟨r, hresult, Prod.mk.inj heq⟩

/-- **Inversion**: every call that ends has one of the effects. -/
theorem perform_eq_ok (h : s.perform c json f call = .ok (s', accepted)) :
    Effect c json f s call s' accepted := by
  cases call with
  -- account calls: a transaction that is refused leaves the store as it is
  | bootstrap nowMs username password salt =>
    obtain ⟨⟨_, user⟩, hcall, rfl, rfl⟩ := ended_eq_ok h
    obtain ⟨⟨accounts, created⟩, haccounts, hcall⟩ := bind_eq_ok.mp hcall
    cases created with
    | none =>
      obtain ⟨rfl, rfl⟩ := ok_pair_inj hcall
      exact .refused _
    | some created =>
      obtain ⟨⟨audit, row⟩, haudit, hcall⟩ := bind_eq_ok.mp hcall
      obtain ⟨rfl, rfl⟩ := ok_pair_inj hcall
      exact .bootstrap haccounts rfl (appendAudit_eq_ok haudit)
  | create now nowMs authority username password role salt =>
    obtain ⟨⟨_, user⟩, hcall, rfl, rfl⟩ := ended_eq_ok h
    obtain ⟨⟨accounts, created⟩, haccounts, hcall⟩ := bind_eq_ok.mp hcall
    cases created with
    | none =>
      obtain ⟨rfl, rfl⟩ := ok_pair_inj hcall
      exact .refused _
    | some created =>
      simp only [bind_eq_ok] at hcall
      obtain ⟨actor, -, committed, hcommit, hcall⟩ := hcall
      obtain ⟨rfl, rfl⟩ := ok_pair_inj hcall
      obtain ⟨audit, haudit, rfl⟩ := commitAccount_eq_ok hcommit
      exact .mutation (.create haccounts) rfl rfl haudit
  | update now nowMs authority id role enabled password salt =>
    obtain ⟨⟨_, change⟩, hcall, rfl, rfl⟩ := ended_eq_ok h
    obtain ⟨⟨accounts, changed⟩, haccounts, hcall⟩ := bind_eq_ok.mp hcall
    cases changed with
    | applied =>
      simp only [bind_eq_ok] at hcall
      obtain ⟨actor, -, committed, hcommit, hcall⟩ := hcall
      obtain ⟨rfl, rfl⟩ := ok_pair_inj hcall
      obtain ⟨audit, haudit, rfl⟩ := commitAccount_eq_ok hcommit
      exact .mutation (.update haccounts) rfl rfl haudit
    | notFound =>
      obtain ⟨rfl, rfl⟩ := ok_pair_inj hcall
      exact .refused _
    | conflict =>
      obtain ⟨rfl, rfl⟩ := ok_pair_inj hcall
      exact .refused _
  | delete now nowMs authority id =>
    obtain ⟨⟨_, change⟩, hcall, rfl, rfl⟩ := ended_eq_ok h
    obtain ⟨⟨accounts, changed⟩, haccounts, hcall⟩ := bind_eq_ok.mp hcall
    cases changed with
    | applied =>
      simp only [bind_eq_ok] at hcall
      obtain ⟨actor, -, committed, hcommit, hcall⟩ := hcall
      obtain ⟨rfl, rfl⟩ := ok_pair_inj hcall
      obtain ⟨audit, haudit, rfl⟩ := commitAccount_eq_ok hcommit
      exact .mutation (.delete haccounts) rfl rfl haudit
    | notFound =>
      obtain ⟨rfl, rfl⟩ := ok_pair_inj hcall
      exact .refused _
    | conflict =>
      obtain ⟨rfl, rfl⟩ := ok_pair_inj hcall
      exact .refused _
  -- session calls commit the accounts only
  | login now id epoch token =>
    obtain ⟨⟨_, user⟩, hcall, rfl, rfl⟩ := ended_eq_ok h
    obtain ⟨r, hlogin, hcommit⟩ := map_eq_ok.mp hcall
    rcases @commitSession_eq s r with ⟨db, found, rfl, hcommitted⟩ | hcommitted
    · obtain ⟨rfl, rfl⟩ := Prod.mk.inj (hcommit.symm.trans hcommitted)
      exact .session (.login hlogin)
    · obtain ⟨rfl, rfl⟩ := Prod.mk.inj (hcommit.symm.trans hcommitted)
      exact .refused _
  | ssoLease now username token =>
    obtain ⟨⟨_, user⟩, hcall, rfl, rfl⟩ := ended_eq_ok h
    obtain ⟨r, hlease, hcommit⟩ := map_eq_ok.mp hcall
    rcases @commitSession_eq s r with ⟨db, found, rfl, hcommitted⟩ | hcommitted
    · obtain ⟨rfl, rfl⟩ := Prod.mk.inj (hcommit.symm.trans hcommitted)
      exact .session (.ssoLease hlease)
    · obtain ⟨rfl, rfl⟩ := Prod.mk.inj (hcommit.symm.trans hcommitted)
      exact .refused _
  | logout token =>
    obtain ⟨rfl, rfl⟩ := ok_pair_inj h
    exact .session .logout
  -- the history and the journal have inversion lemmas of their own, next to their effects
  | setAuditPolicy now nowMs timeUnixMs authority expectedRevision policy =>
    obtain ⟨next, hcall, heq⟩ := map_eq_ok.mp h
    obtain ⟨rfl, rfl⟩ := Prod.mk.inj heq
    simp only [Records.setAuditPolicy, bind_eq_ok] at hcall
    obtain ⟨_, -, _, -, actor, -, audit, haudit, hcall⟩ := hcall
    obtain rfl := Except.ok.inj hcall
    exact .setAuditPolicy haudit
  | pruneAudit now nowMs authority throughId expectedLatestId =>
    obtain ⟨next, hcall, heq⟩ := map_eq_ok.mp h
    obtain ⟨rfl, rfl⟩ := Prod.mk.inj heq
    simp only [Records.pruneAudit, bind_eq_ok] at hcall
    obtain ⟨actor, -, audit, haudit, hcall⟩ := hcall
    obtain rfl := Except.ok.inj hcall
    exact .pruneAudit haudit
  | acceptConfig now nowMs authority randomId request =>
    obtain ⟨⟨_, record⟩, hcall, rfl, rfl⟩ := ended_eq_ok h
    simp only [Records.acceptConfig, bind_eq_ok] at hcall
    obtain ⟨_, -, actor, -, ⟨journal, found⟩, hjournal, hcall⟩ := hcall
    obtain ⟨rfl, -⟩ := ok_pair_inj hcall
    exact .journal (.accept hjournal)
  | finishConfig nowMs operationId state =>
    obtain ⟨⟨_, record⟩, hcall, rfl, rfl⟩ := ended_eq_ok h
    obtain ⟨⟨journal, found⟩, hjournal, hcall⟩ := bind_eq_ok.mp hcall
    obtain ⟨rfl, -⟩ := ok_pair_inj hcall
    exact .journal (.finish hjournal)
  | prepareConfigRelease now nowMs authority randomId operationId receipt =>
    obtain ⟨⟨_, work⟩, hcall, rfl, rfl⟩ := ended_eq_ok h
    simp only [Records.prepareConfigRelease, bind_eq_ok] at hcall
    obtain ⟨_, -, actor, -, ⟨journal, found⟩, hjournal, hcall⟩ := hcall
    obtain ⟨rfl, -⟩ := ok_pair_inj hcall
    exact .journal (.prepare hjournal)
  | acknowledgeConfigRelease nowMs work =>
    obtain ⟨⟨_, acknowledged⟩, hcall, rfl, rfl⟩ := ended_eq_ok h
    obtain ⟨⟨journal, found⟩, hjournal, hcall⟩ := bind_eq_ok.mp hcall
    obtain ⟨rfl, -⟩ := ok_pair_inj hcall
    exact .journal (.acknowledge hjournal)
  | pruneConfigOperations now nowMs authority throughId expectedLatestId history =>
    obtain ⟨⟨_, deleted⟩, hcall, rfl, rfl⟩ := ended_eq_ok h
    simp only [Records.pruneConfigOperations, bind_eq_ok] at hcall
    obtain ⟨actor, -, ⟨journal, gone, unresolved⟩, hjournal, ⟨audit, row⟩, haudit, hcall⟩ := hcall
    obtain ⟨rfl, -⟩ := ok_pair_inj hcall
    exact .pruneConfigOperations hjournal rfl (appendAudit_eq_ok haudit)
  | fault => cases h

/-- A step has an effect, or the call has failed and nothing has changed. -/
theorem next_cases (s : Records) (call : Call) :
    (∃ e, s.perform c json f call = .error e ∧ s.next c json f call = s) ∨
      ∃ accepted, s.perform c json f call = .ok (s.next c json f call, accepted) ∧
        Effect c json f s call (s.next c json f call) accepted := by
  unfold Records.next
  cases h : s.perform c json f call with
  | error e => exact .inl ⟨e, rfl, rfl⟩
  | ok r =>
    obtain ⟨s', accepted⟩ := r
    exact .inr ⟨accepted, rfl, perform_eq_ok h⟩

/-- A call that is not accepted changes nothing. -/
theorem next_eq_of_refused (h : ∀ s', s.perform c json f call ≠ .ok (s', true)) :
    s.next c json f call = s := by
  rcases @next_cases _ c json f s call with ⟨e, -, hsame⟩ | ⟨accepted, hperform, heffect⟩
  · exact hsame
  · cases accepted with
    | true => exact absurd hperform (h _)
    | false =>
      generalize s.next c json f call = s' at heffect ⊢
      cases heffect with
      | refused => rfl

end AdminUsers
