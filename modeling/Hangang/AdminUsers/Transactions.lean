import Hangang.AdminUsers.Store

/-! # What a Transaction Does to Accounts and Sessions

    A security change raises the account's epoch and deletes its sessions, and a new
    account has an id that no other one had. `Keeps` says so of every transaction that
    hands out no token, and `Inserted` of the two that do. -/

open Bytes Except

namespace AdminUsers

/-! ## Transactions without a token -/

/-- Accounts and sessions from one database to the next one. -/
structure Keeps (db db' : Db) : Prop where
  /-- No session appears. -/
  sessions : ∀ digest s, db'.sessions.lookup digest = some s → db.sessions.lookup digest = some s
  /-- An account that was there is as it was, or its epoch is higher, or cannot be read
      any more. -/
  accounts : ∀ id account account', db.users.lookup id = some account →
    db'.users.lookup id = some account' → account' = account ∨
      account.passwordEpoch < account'.passwordEpoch ∨ 2 ^ 63 ≤ account'.passwordEpoch
  /-- The session of an enabled account stays only if the account does. -/
  live : ∀ digest s account, db'.sessions.lookup digest = some s →
    db.users.lookup s.userId = some account → account.enabled = true →
    db'.users.lookup s.userId = some account
  /-- An account that was not there has the next id. -/
  fresh : ∀ id account, db.users.lookup id = none → db'.users.lookup id = some account →
    id = db.nextUserId

theorem Keeps.refl (db : Db) : Keeps db db where
  sessions _ _ h := h
  accounts _ _ _ h h' := .inl (Option.some.inj (h'.symm.trans h))
  live _ _ _ _ h _ := h
  fresh _ _ h h' := by rw [h] at h'; cases h'

/-- Sessions go, accounts stay. -/
theorem Keeps.of_users {db db' : Db} (husers : db'.users = db.users)
    (hsessions : ∀ digest s, db'.sessions.lookup digest = some s →
      db.sessions.lookup digest = some s) : Keeps db db' where
  sessions := hsessions
  accounts := by
    rw [husers]
    exact (Keeps.refl db).accounts
  live := by
    intro _ _ _ _ h _
    rw [husers]
    exact h
  fresh := by
    rw [husers]
    exact (Keeps.refl db).fresh

variable {digest salt token username : Bytes} {id : Nat} {s : Session} {account : Account}
  {authority : MutationAuthority}

theorem lookup_deleteSessions {db : Db}
    (h : (db.deleteSessions id).sessions.lookup digest = some s) :
    s.userId ≠ id ∧ db.sessions.lookup digest = some s := by
  rw [Db.deleteSessions, Table.lookup_retain, Option.filter_eq_some_iff] at h
  exact ⟨of_decide_eq_true h.2, h.1⟩

theorem lt_nextEpoch (epoch : Nat) : epoch < nextEpoch epoch ∨ 2 ^ 63 ≤ nextEpoch epoch := by
  unfold nextEpoch
  omega

/-- An update leaves an account alone or raises its epoch. -/
theorem updated_cases (account : Account) (role : Role) (enabled : Bool)
    (password : Option (Bytes × Bytes)) :
    (account.updated role enabled password = account ∧ password = none ∧
      enabled = account.enabled ∧ role = account.role) ∨
      account.passwordEpoch < (account.updated role enabled password).passwordEpoch ∨
      2 ^ 63 ≤ (account.updated role enabled password).passwordEpoch := by
  cases password with
  | some new => exact .inr (lt_nextEpoch account.passwordEpoch)
  | none =>
    by_cases hchanged : enabled ≠ account.enabled ∨ role ≠ account.role
    · right
      show account.passwordEpoch < (if _ then _ else _) ∨ 2 ^ 63 ≤ (if _ then _ else _)
      rw [if_pos hchanged]
      exact lt_nextEpoch account.passwordEpoch
    · left
      rw [not_or, not_not, not_not] at hchanged
      obtain ⟨rfl, rfl⟩ := hchanged
      refine ⟨?_, rfl, rfl, rfl⟩
      simp [Account.updated]

variable {c : Crypto} {db db' : Db} {now : Nat}

/-- An account is replaced: its epoch rises, or it stays; and its sessions go, or it
    stays, or it had none. -/
theorem Keeps.of_insert {account' : Account} (haccount : db.users.lookup id = some account)
    (husers : db'.users = db.users.insert id account')
    (hepoch : account' = account ∨ account.passwordEpoch < account'.passwordEpoch ∨
      2 ^ 63 ≤ account'.passwordEpoch)
    (hsessions : ∀ digest s, db'.sessions.lookup digest = some s →
      db.sessions.lookup digest = some s)
    (hgone : account' = account ∨ account.enabled = false ∨
      ∀ digest s, db'.sessions.lookup digest = some s → s.userId ≠ id) : Keeps db db' where
  sessions := hsessions
  accounts := by
    intro id' old new hold hnew
    rw [husers] at hnew
    rcases Table.lookup_of_insert hnew with ⟨rfl, rfl⟩ | hsame
    · obtain rfl := Option.some.inj (hold.symm.trans haccount)
      exact hepoch
    · exact .inl (Option.some.inj (hsame.symm.trans hold))
  live := by
    intro digest s old hs hold henabled
    rw [husers]
    by_cases hid : s.userId = id
    · rw [hid] at hold
      obtain rfl := Option.some.inj (hold.symm.trans haccount)
      rw [hid, AList.lookup_insert]
      -- an enabled account that has changed has no session left
      rcases hgone with rfl | hdisabled | hnone
      · rfl
      · rw [hdisabled] at henabled
        cases henabled
      · exact absurd hid (hnone digest s hs)
    · rw [AList.lookup_insert_ne hid]
      exact hold
  fresh := by
    intro id' new hnone hnew
    rw [husers] at hnew
    rcases Table.lookup_of_insert hnew with ⟨rfl, -⟩ | hsame
    · rw [haccount] at hnone
      cases hnone
    · rw [hnone] at hsame
      cases hsame

theorem update_keeps {role : Option Role} {enabled : Option Bool} {password : Option Bytes}
    {change : Change}
    (h : update c db now authority id role enabled password salt = .ok (db', change)) :
    Keeps db db' ∧ db'.nextUserId = db.nextUserId ∧
      ∀ id', db.users.lookup id' = none → db'.users.lookup id' = none := by
  simp only [update, bind_eq_ok] at h
  obtain ⟨new, -, _, -, h⟩ := h
  split at h
  · obtain ⟨rfl, -⟩ := ok_pair_inj h
    exact ⟨Keeps.refl db, rfl, fun _ h => h⟩
  next account haccount =>
    split at h
    · obtain ⟨rfl, -⟩ := ok_pair_inj h
      exact ⟨Keeps.refl db, rfl, fun _ h => h⟩
    next =>
      generalize hupdated : account.updated (role.getD account.role)
        (enabled.getD account.enabled) new = account' at h
      have hcases := updated_cases account (role.getD account.role)
        (enabled.getD account.enabled) new
      rw [hupdated] at hcases
      have hnone : ∀ id', db.users.lookup id' = none →
          (db.users.insert id account').lookup id' = none := by
        intro id' hid'
        rw [AList.lookup_insert_ne, hid']
        rintro rfl
        rw [haccount] at hid'
        cases hid'
      have hepoch := hcases.imp_left And.left
      split at h
      · -- the sessions are deleted
        obtain ⟨rfl, -⟩ := ok_pair_inj h
        refine ⟨Keeps.of_insert haccount rfl hepoch ?_ (.inr (.inr ?_)), rfl, hnone⟩
        · exact fun digest s hs => (lookup_deleteSessions hs).2
        · exact fun digest s hs => (lookup_deleteSessions hs).1
      next hkept =>
        -- they stay: then only enabling a disabled account is a change
        obtain ⟨rfl, -⟩ := ok_pair_inj h
        refine ⟨Keeps.of_insert haccount rfl hepoch (fun _ _ hs => hs) ?_, rfl, hnone⟩
        simp only [not_or, Bool.not_eq_true', Bool.not_eq_false, not_not] at hkept
        obtain ⟨hnew, henabled, hrole⟩ := hkept
        obtain rfl := Option.not_isSome_iff_eq_none.mp hnew
        cases hold : account.enabled with
        | false => exact .inr (.inl rfl)
        | true =>
          left
          rw [← hupdated, henabled, hrole]
          simp [Account.updated, ← hold]

theorem delete_keeps {change : Change} (h : delete c db now authority id = .ok (db', change)) :
    Keeps db db' ∧ db'.nextUserId = db.nextUserId ∧
      ∀ id', db.users.lookup id' = none → db'.users.lookup id' = none := by
  simp only [delete, bind_eq_ok] at h
  obtain ⟨_, -, h⟩ := h
  split at h
  · obtain ⟨rfl, -⟩ := ok_pair_inj h
    exact ⟨Keeps.refl db, rfl, fun _ h => h⟩
  next account haccount =>
    split at h
    · obtain ⟨rfl, -⟩ := ok_pair_inj h
      exact ⟨Keeps.refl db, rfl, fun _ h => h⟩
    next =>
      obtain ⟨rfl, -⟩ := ok_pair_inj h
      have hnone : ∀ id', db.users.lookup id' = none → (db.users.erase id).lookup id' = none := by
        intro id' hid'
        by_cases heq : id' = id
        · rw [heq]
          exact AList.lookup_erase id db.users
        · rw [AList.lookup_erase_ne heq, hid']
      refine ⟨⟨?_, ?_, ?_, ?_⟩, rfl, hnone⟩
      · exact fun digest s hs => (lookup_deleteSessions hs).2
      · intro id' old new hold hnew
        exact .inl (Option.some.inj ((Table.lookup_of_erase hnew).2.symm.trans hold))
      · intro digest s old hs hold _
        show (db.users.erase id).lookup s.userId = some old
        rw [AList.lookup_erase_ne (lookup_deleteSessions hs).1]
        exact hold
      · intro id' new hid' hnew
        have hgone : (db.users.erase id).lookup id' = some new := hnew
        rw [hnone id' hid'] at hgone
        cases hgone

theorem logout_keeps : Keeps db (logout c db token) :=
  Keeps.of_users rfl fun _ _ hs => (Table.lookup_of_erase hs).2

/-- A new account has the next id, which is then used up. -/
theorem insertUser_keeps {tx : Db} (hallocate : allocateUserId db = .ok (id, tx))
    (hinsert : tx.insertUser id account = .ok db') :
    id = db.nextUserId ∧ db'.nextUserId = db.nextUserId + 1 ∧ Keeps db db' := by
  simp only [allocateUserId, bind_eq_ok, Except.ok.injEq, Prod.mk.injEq] at hallocate
  obtain ⟨_, -, rfl, rfl⟩ := hallocate
  simp only [Db.insertUser, bind_eq_ok, ensure_eq_ok, Except.ok.injEq] at hinsert
  obtain ⟨_, ⟨hfree, -⟩, rfl⟩ := hinsert
  rw [Option.isNone_iff_eq_none] at hfree
  refine ⟨rfl, rfl, fun _ _ hs => hs, ?_, ?_, ?_⟩
  · intro id' old new hold hnew
    rcases Table.lookup_of_insert hnew with ⟨rfl, -⟩ | hsame
    · rw [hold] at hfree
      cases hfree
    · exact .inl (Option.some.inj (hsame.symm.trans hold))
  · intro digest s old _ hold _
    show (db.users.insert _ _).lookup s.userId = some old
    rw [AList.lookup_insert_ne]
    · exact hold
    · intro heq
      rw [heq] at hold
      rw [hold] at hfree
      cases hfree
  · intro id' new hnone hnew
    rcases Table.lookup_of_insert hnew with ⟨rfl, -⟩ | hsame
    · rfl
    · rw [hnone] at hsame
      cases hsame

/-- `bootstrap` and `create` add an account or nothing. -/
theorem bootstrap_keeps {password : Bytes} {user : Option User}
    (h : bootstrap c db username password salt = .ok (db', user)) :
    (user = none ∧ db' = db) ∨ ∃ u, user = some u ∧ u.id = db.nextUserId ∧
      db'.nextUserId = db.nextUserId + 1 ∧ Keeps db db' := by
  simp only [bootstrap, bind_eq_ok] at h
  obtain ⟨_, -, _, -, hash, -, h⟩ := h
  split at h
  · obtain ⟨rfl, rfl⟩ := ok_pair_inj h
    exact .inl ⟨rfl, rfl⟩
  · simp only [bind_eq_ok] at h
    obtain ⟨⟨id, tx⟩, hallocate, _, hinsert, h⟩ := h
    obtain ⟨rfl, rfl⟩ := ok_pair_inj h
    exact .inr ⟨_, rfl, insertUser_keeps hallocate hinsert⟩

theorem create_keeps {password : Bytes} {role : Role} {user : Option User}
    (h : create c db now authority username password role salt = .ok (db', user)) :
    (user = none ∧ db' = db) ∨ ∃ u, user = some u ∧ u.id = db.nextUserId ∧
      db'.nextUserId = db.nextUserId + 1 ∧ Keeps db db' := by
  simp only [create, bind_eq_ok] at h
  obtain ⟨_, -, _, -, hash, -, _, -, h⟩ := h
  split at h
  · obtain ⟨rfl, rfl⟩ := ok_pair_inj h
    exact .inl ⟨rfl, rfl⟩
  · simp only [bind_eq_ok] at h
    obtain ⟨⟨id, tx⟩, hallocate, _, hinsert, h⟩ := h
    obtain ⟨rfl, rfl⟩ := ok_pair_inj h
    exact .inr ⟨_, rfl, insertUser_keeps hallocate hinsert⟩

/-! ## Tokens -/

/-- What inserting a session leaves. -/
structure Inserted (db db' : Db) (digest : Bytes) (id : Nat) : Prop where
  users : db'.users = db.users
  nextUserId : db'.nextUserId = db.nextUserId
  sessions : ∀ digest' s, db'.sessions.lookup digest' = some s →
    digest' = digest ∧ s.userId = id ∨ db.sessions.lookup digest' = some s

theorem insertSession_inserted (db : Db) {tx : Db} (h : tx.insertSession digest s = .ok db')
    (htx : tx.users = db.users ∧ tx.nextUserId = db.nextUserId ∧ ∀ digest s,
      tx.sessions.lookup digest = some s → db.sessions.lookup digest = some s) :
    Inserted db db' digest s.userId := by
  simp only [Db.insertSession, bind_eq_ok, Except.ok.injEq] at h
  obtain ⟨_, -, rfl⟩ := h
  refine ⟨htx.1, htx.2.1, fun digest' s' hs' => ?_⟩
  rcases Table.lookup_of_insert hs' with ⟨rfl, rfl⟩ | hold
  · exact .inl ⟨rfl, rfl⟩
  · exact .inr (htx.2.2 digest' s' hold)

theorem lookup_deleteExpired (h : (db.deleteExpired now).sessions.lookup digest = some s) :
    db.sessions.lookup digest = some s := by
  rw [Db.deleteExpired, Table.lookup_retain, Option.filter_eq_some_iff] at h
  exact h.1

theorem lookup_deleteDigests {digests : List Bytes}
    (h : (db.deleteDigests digests).sessions.lookup digest = some s) :
    db.sessions.lookup digest = some s := by
  rw [Db.deleteDigests, Table.lookup_retain, Option.filter_eq_some_iff] at h
  exact h.1

/-- A login inserts a session only for the account it has read. -/
theorem insertLogin_inserted {epoch : Nat} {user : User}
    (h : insertLogin c db now id epoch token = .ok (db', some user)) :
    user.id = id ∧ Inserted db db' (c.sha256 token) id ∧ ∃ account,
      db.users.lookup id = some account ∧ account.enabled = true ∧ account.passwordEpoch = epoch := by
  unfold insertLogin at h
  split at h
  · cases h
  next found hfound =>
    unfold loginCandidate at hfound
    split at hfound
    · cases hfound
    next account haccount =>
      split at hfound
      next hguard =>
        obtain rfl := Option.some.inj hfound
        have hspec : ∃ account, db.users.lookup id = some account ∧ account.enabled = true ∧
            account.passwordEpoch = epoch := ⟨account, haccount, hguard⟩
        simp only at h
        split at h
        · -- the store is full: the account's oldest session makes room
          split at h
          · cases h
          · simp only [bind_eq_ok] at h
            obtain ⟨tx, hinsert, h⟩ := h
            obtain ⟨rfl, huser⟩ := ok_pair_inj h
            obtain rfl := Option.some.inj huser
            refine ⟨rfl, insertSession_inserted db hinsert ⟨rfl, rfl, fun digest s hs => ?_⟩, hspec⟩
            exact lookup_deleteExpired (lookup_deleteDigests (lookup_deleteDigests hs))
        · simp only [bind_eq_ok] at h
          obtain ⟨tx, hinsert, h⟩ := h
          obtain ⟨rfl, huser⟩ := ok_pair_inj h
          obtain rfl := Option.some.inj huser
          refine ⟨rfl, insertSession_inserted db hinsert ⟨rfl, rfl, fun digest s hs => ?_⟩, hspec⟩
          exact lookup_deleteExpired (lookup_deleteDigests hs)
      next => cases hfound

theorem findUser_eq_some (h : db.findUser username = some (id, account)) :
    db.users.lookup id = some account := by
  rw [Db.findUser, Option.map_eq_some_iff] at h
  obtain ⟨⟨id', account'⟩, hfind, heq⟩ := h
  obtain ⟨rfl, rfl⟩ := Prod.mk.inj heq
  exact AList.mem_lookup_iff.mpr (List.mem_of_find?_eq_some hfind)

theorem ssoLease_inserted {user : User} (hfind : db.findUser username = some (id, account))
    (h : ssoLease c db now username token = .ok (db', some user)) :
    user.id = id ∧ Inserted db db' (c.sha256 token) id ∧ account.enabled = true := by
  simp only [ssoLease, bind_eq_ok, hfind] at h
  obtain ⟨_, -, h⟩ := h
  split at h
  · cases h
  next henabled =>
    split at h
    · cases h
    · simp only [bind_eq_ok] at h
      obtain ⟨tx, hinsert, h⟩ := h
      obtain ⟨rfl, huser⟩ := ok_pair_inj h
      obtain rfl := Option.some.inj huser
      refine ⟨rfl, insertSession_inserted db hinsert ⟨rfl, rfl, fun digest s hs => ?_⟩, ?_⟩
      · exact lookup_deleteExpired hs
      · simpa using henabled

end AdminUsers
