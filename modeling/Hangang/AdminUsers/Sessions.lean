import Hangang.AdminUsers.Transactions
import Hangang.Framework.Machine

/-! # Sessions Do Not Outlive a Security Change

    Logins read an account, check the password outside any transaction, and insert a
    session later. The world below interleaves them with every other operation of the
    store. Each login, and each token, carries the databases there were since its
    account was read, so that "unchanged since" is a statement about all of them.

    Three things work together: a security change raises the account's epoch, which a
    pending login compares; it deletes the account's sessions; and the id of a deleted
    account is never given to another one. -/

open Bytes Except

namespace AdminUsers

/-! ## The world -/

/-- A login in progress. -/
structure Pending where
  candidate : Option (Nat × Account)
  password : Bytes
  /-- The password was checked. -/
  verified : Bool
  /-- The databases since the candidate was read. -/
  since : List Db

/-- A token that was handed out. -/
structure Creation where
  token : Bytes
  userId : Nat
  /-- The account as the login, or the lease, has read it. -/
  account : Account
  /-- The databases since then. -/
  since : List Db

structure World where
  db : Db
  pending : List Pending
  created : List Creation
  /-- The digests of all tokens that were drawn. -/
  drawn : List Bytes
  /-- The ids of all accounts there ever were. -/
  ids : List Nat

/-- A transaction commits. -/
def World.commit (w : World) (db : Db) : World :=
  { w with
    db := db
    pending := w.pending.map fun p => { p with since := db :: p.since }
    created := w.created.map fun t => { t with since := db :: t.since } }

inductive Event where
  | bootstrap (now : Nat) (username password salt : Bytes)
  | create (now : Nat) (authority : MutationAuthority) (username password : Bytes) (role : Role)
      (salt : Bytes)
  | update (now : Nat) (authority : MutationAuthority) (id : Nat) (role : Option Role)
      (enabled : Option Bool) (password : Option Bytes) (salt : Bytes)
  | delete (now : Nat) (authority : MutationAuthority) (id : Nat)
  /-- A login reads its candidate. -/
  | loginRead (username password : Bytes)
  /-- The `i`-th pending login checks the password. -/
  | loginCheck (i : Nat)
  /-- The `i`-th pending login draws a token and inserts a session. -/
  | loginInsert (i now : Nat) (token : Bytes)
  | ssoLease (now : Nat) (username token : Bytes)
  | logout (token : Bytes)
  /-- A transaction fails, or an operation is given up. -/
  | fault

/-- A transaction that may add an account. -/
def World.settleUser (w : World) : Except String (Db × Option User) → World
  | .ok (db, some user) => { w.commit db with ids := w.ids ++ [user.id] }
  | .ok (db, none) => w.commit db
  | .error _ => w

/-- A transaction that may insert a session for a token. -/
def World.settleToken (w : World) (token : Bytes) (digest : Bytes) (account : Account)
    (since : List Db) : Except String (Db × Option User) → World
  | .ok (db, some user) =>
    { w with drawn := digest :: w.drawn, created := ⟨token, user.id, account, since⟩ :: w.created
      }.commit db
  | _ => { w with drawn := digest :: w.drawn }

/-- The store. Its tokens are random, and their digests are taken never to repeat: neither a
    token is drawn twice nor do two of them collide. -/
def store (c : Crypto) : Machine World Event where
  step w
    | .bootstrap _ username password salt =>
      some (w.settleUser (bootstrap c w.db username password salt))
    | .create now authority username password role salt =>
      some (w.settleUser (create c w.db now authority username password role salt))
    | .update now authority id role enabled password salt =>
      match update c w.db now authority id role enabled password salt with
      | .ok (db, _) => some (w.commit db)
      | .error _ => some w
    | .delete now authority id =>
      match delete c w.db now authority id with
      | .ok (db, _) => some (w.commit db)
      | .error _ => some w
    | .loginRead username password =>
      match readCandidate w.db username with
      | .ok candidate => some { w with pending := ⟨candidate, password, false, [w.db]⟩ :: w.pending }
      | .error _ => some w
    | .loginCheck i =>
      match w.pending[i]? with
      | none => none
      | some p =>
        match checkPassword c p.candidate p.password with
        | .ok true => some { w with pending := w.pending.set i { p with verified := true } }
        | _ => some { w with pending := w.pending.eraseIdx i }
    | .loginInsert i now token =>
      match w.pending[i]? with
      | none => none
      | some p =>
        match p.candidate, p.verified with
        | some (id, account), true =>
          if c.sha256 token ∈ w.drawn then none
          else
            some ({ w with pending := w.pending.eraseIdx i }.settleToken token (c.sha256 token)
              account p.since (insertLogin c w.db now id account.passwordEpoch token))
        | _, _ => none
    | .ssoLease now username token =>
      if c.sha256 token ∈ w.drawn then none
      else
        match w.db.findUser username with
        | none => some w
        | some (_, account) =>
          some (w.settleToken token (c.sha256 token) account [w.db]
            (ssoLease c w.db now username token))
    | .logout token => some (w.commit (logout c w.db token))
    | .fault => some w

/-- A store that was just opened: accounts of an older version, and no session. -/
structure Opened (w : World) : Prop where
  pending : w.pending = []
  created : w.created = []
  sessions : w.db.sessions = ∅
  ids : w.ids = w.db.users.entries.map Sigma.fst
  /-- `open` checks it. -/
  nextUserId : ∀ id ∈ w.ids, id < w.db.nextUserId

variable {c : Crypto} {db db' : Db} {now : Nat}

/-! ## The invariant -/

/-- The account of a token is as it was read, in every database since. -/
def Unchanged (t : Creation) (db : Db) : Prop :=
  t.account.enabled = true ∧ db.users.lookup t.userId = some t.account ∧
    ∀ d ∈ t.since, d.users.lookup t.userId = some t.account

/-- As long as the epoch is the one that was read, so is the account. -/
def Fenced (p : Pending) (db : Db) (id : Nat) (account : Account) : Prop :=
  account.passwordEpoch < 2 ^ 63 ∧ ∀ account', db.users.lookup id = some account' →
    account.passwordEpoch ≤ account'.passwordEpoch ∧
      (account'.passwordEpoch = account.passwordEpoch →
        account' = account ∧ ∀ d ∈ p.since, d.users.lookup id = some account)

structure Inv (c : Crypto) (w : World) : Prop where
  known : ∀ id account, w.db.users.lookup id = some account → id ∈ w.ids
  bounded : ∀ id ∈ w.ids, id < w.db.nextUserId
  nodup : w.ids.Nodup
  drawn : ∀ t ∈ w.created, c.sha256 t.token ∈ w.drawn
  distinct : (w.created.map fun t => c.sha256 t.token).Nodup
  sessions : ∀ digest s, w.db.sessions.lookup digest = some s →
    ∃ t ∈ w.created, c.sha256 t.token = digest ∧ t.userId = s.userId ∧ Unchanged t w.db
  pending : ∀ p ∈ w.pending, ∀ id account, p.candidate = some (id, account) →
    id ∈ w.ids ∧ Fenced p w.db id account

variable {w : World} {account : Account} {id : Nat} {token : Bytes}

theorem opened_inv (h : Opened w) : Inv c w where
  known := by
    intro id account hlookup
    rw [h.ids]
    exact List.mem_map.mpr ⟨⟨id, account⟩, AList.mem_lookup_iff.mp hlookup, rfl⟩
  bounded := h.nextUserId
  nodup := by
    rw [h.ids]
    exact w.db.users.nodupKeys
  drawn := by
    rw [h.created]
    exact fun t ht => absurd ht List.not_mem_nil
  distinct := by
    rw [h.created]
    exact List.nodup_nil
  sessions := by
    intro digest s hs
    rw [h.sessions, AList.lookup_empty] at hs
    cases hs
  pending := by
    rw [h.pending]
    exact fun p hp => absurd hp List.not_mem_nil

/-- A pending login stays fenced when a transaction commits. -/
theorem Fenced.commit {p : Pending} (h : Fenced p db id account) (hkeeps : Keeps db db')
    (hid : id < db.nextUserId) :
    Fenced { p with since := db' :: p.since } db' id account := by
  refine ⟨h.1, fun account' haccount' => ?_⟩
  -- the id was taken when it was read, so this is still the same account
  obtain ⟨old, hold⟩ : ∃ old, db.users.lookup id = some old := by
    cases hlookup : db.users.lookup id with
    | some old => exact ⟨old, rfl⟩
    | none => exact absurd (hkeeps.fresh id account' hlookup haccount') (Nat.ne_of_lt hid)
  obtain ⟨hle, hsame⟩ := h.2 old hold
  rcases hkeeps.accounts id old account' hold haccount' with rfl | hlt | hlarge
  · refine ⟨hle, fun hepoch => ?_⟩
    obtain ⟨rfl, hsince⟩ := hsame hepoch
    refine ⟨rfl, fun d hd => ?_⟩
    rcases List.mem_cons.mp hd with rfl | hmem
    · exact haccount'
    · exact hsince d hmem
  · exact ⟨by omega, fun hepoch => by omega⟩
  · have hepoch := h.1
    exact ⟨by omega, fun hepoch => by omega⟩

/-- **Commit**: a transaction that keeps accounts and sessions keeps the invariant. -/
theorem Inv.commit (h : Inv c w) (hkeeps : Keeps w.db db') {ids : List Nat}
    (hsub : ∀ id ∈ w.ids, id ∈ ids) (hnodup : ids.Nodup)
    (hbounded : ∀ id ∈ ids, id < db'.nextUserId)
    (hknown : ∀ id account, db'.users.lookup id = some account → id ∈ ids) :
    Inv c { w.commit db' with ids := ids } where
  known := hknown
  bounded := hbounded
  nodup := hnodup
  drawn := by
    intro t ht
    obtain ⟨t₀, ht₀, rfl⟩ := List.mem_map.mp ht
    exact h.drawn t₀ ht₀
  distinct := by
    show ((w.created.map _).map _).Nodup
    rw [List.map_map]
    exact h.distinct
  sessions := by
    intro digest s hs
    obtain ⟨t, ht, hdigest, huser, henabled, hlookup, hsince⟩ :=
      h.sessions digest s (hkeeps.sessions digest s hs)
    have hstill : db'.users.lookup t.userId = some t.account := by
      rw [huser]
      rw [huser] at hlookup
      exact hkeeps.live digest s t.account hs hlookup henabled
    refine ⟨{ t with since := db' :: t.since }, List.mem_map.mpr ⟨t, ht, rfl⟩, hdigest, huser,
      henabled, hstill, fun d hd => ?_⟩
    rcases List.mem_cons.mp hd with rfl | hmem
    · exact hstill
    · exact hsince d hmem
  pending := by
    intro p hp id account hcandidate
    obtain ⟨p₀, hp₀, rfl⟩ := List.mem_map.mp hp
    obtain ⟨hid, hfenced⟩ := h.pending p₀ hp₀ id account hcandidate
    exact ⟨hsub id hid, hfenced.commit hkeeps (h.bounded id hid)⟩

/-- A transaction that adds no account. -/
theorem Inv.commit_old (h : Inv c w) (hkeeps : Keeps w.db db')
    (hnext : db'.nextUserId = w.db.nextUserId)
    (hnone : ∀ id, w.db.users.lookup id = none → db'.users.lookup id = none) :
    Inv c (w.commit db') := by
  refine h.commit hkeeps (fun _ hid => hid) h.nodup (fun id hid => hnext ▸ h.bounded id hid) ?_
  intro id account haccount
  cases hold : w.db.users.lookup id with
  | some old => exact h.known id old hold
  | none =>
    rw [hnone id hold] at haccount
    cases haccount

/-- A transaction that may add one. -/
theorem Inv.settleUser (h : Inv c w) {r : Except String (Db × Option User)}
    (hr : ∀ db' user, r = .ok (db', user) → (user = none ∧ db' = w.db) ∨ ∃ u, user = some u ∧
      u.id = w.db.nextUserId ∧ db'.nextUserId = w.db.nextUserId + 1 ∧ Keeps w.db db') :
    Inv c (w.settleUser r) := by
  rcases r with e | ⟨db', user⟩
  · exact h
  · rcases hr db' user rfl with ⟨rfl, rfl⟩ | ⟨u, rfl, hid, hnext, hkeeps⟩
    · exact h.commit_old (Keeps.refl _) rfl fun _ hnone => hnone
    · have hnew : u.id ∉ w.ids := fun hmem => absurd (h.bounded _ hmem) (by rw [hid]; exact lt_irrefl _)
      refine h.commit hkeeps (fun id hid => List.mem_append_left _ hid) ?_ ?_ ?_
      · rw [List.nodup_append]
        refine ⟨h.nodup, List.nodup_singleton _, fun a ha b hb hab => hnew ?_⟩
        rw [← List.mem_singleton.mp hb, ← hab]
        exact ha
      · intro id hmem
        rw [hnext]
        rcases List.mem_append.mp hmem with hold | hlast
        · exact Nat.lt_succ_of_lt (h.bounded id hold)
        · rw [List.mem_singleton.mp hlast, hid]
          exact Nat.lt_succ_self _
      · intro id account haccount
        cases hold : w.db.users.lookup id with
        | some old => exact List.mem_append_left _ (h.known id old hold)
        | none =>
          rw [hkeeps.fresh id account hold haccount, ← hid]
          exact List.mem_append_right _ List.mem_cons_self

/-- A token is handed out for an account that is still as it was read. -/
theorem Inv.insertToken (h : Inv c w) {since : List Db} (hfresh : c.sha256 token ∉ w.drawn)
    (hinserted : Inserted w.db db' (c.sha256 token) id) (henabled : account.enabled = true)
    (hlookup : w.db.users.lookup id = some account)
    (hsince : ∀ d ∈ since, d.users.lookup id = some account) :
    Inv c ({ w with
      drawn := c.sha256 token :: w.drawn
      created := ⟨token, id, account, since⟩ :: w.created }.commit db') where
  known := by
    intro id' account' haccount'
    refine h.known id' account' ?_
    rw [← hinserted.users]
    exact haccount'
  bounded := by
    intro id' hid'
    show id' < db'.nextUserId
    rw [hinserted.nextUserId]
    exact h.bounded id' hid'
  nodup := h.nodup
  drawn := by
    intro t ht
    obtain ⟨t₀, ht₀, rfl⟩ := List.mem_map.mp ht
    rcases List.mem_cons.mp ht₀ with rfl | hold
    · exact List.mem_cons_self
    · exact List.mem_cons_of_mem _ (h.drawn t₀ hold)
  -- the digest has not been drawn before, so that it is none of the older tokens
  distinct := by
    simp only [World.commit, List.map_cons, List.map_map, List.nodup_cons]
    refine ⟨fun hmem => hfresh ?_, h.distinct⟩
    obtain ⟨t, ht, hdigest⟩ := List.mem_map.mp hmem
    have hdigest : c.sha256 t.token = c.sha256 token := hdigest
    rw [← hdigest]
    exact h.drawn t ht
  sessions := by
    intro digest s hs
    -- the accounts are as before
    have hstill : ∀ {id' account'}, w.db.users.lookup id' = some account' →
        db'.users.lookup id' = some account' := fun hold => by rw [hinserted.users]; exact hold
    rcases hinserted.sessions digest s hs with ⟨rfl, rfl⟩ | hold
    · refine ⟨_, List.mem_map.mpr ⟨_, List.mem_cons_self, rfl⟩, rfl, rfl, henabled,
        hstill hlookup, fun d hd => ?_⟩
      rcases List.mem_cons.mp hd with rfl | hmem
      · exact hstill hlookup
      · exact hsince d hmem
    · obtain ⟨t, ht, hdigest, huser, henabled', hlookup', hsince'⟩ := h.sessions digest s hold
      refine ⟨_, List.mem_map.mpr ⟨t, List.mem_cons_of_mem _ ht, rfl⟩, hdigest, huser, henabled',
        hstill hlookup', fun d hd => ?_⟩
      rcases List.mem_cons.mp hd with rfl | hmem
      · exact hstill hlookup'
      · exact hsince' d hmem
  -- a login that is under way has read its account before, and goes on being fenced
  pending := by
    intro p hp id' account' hcandidate
    obtain ⟨p₀, hp₀, rfl⟩ := List.mem_map.mp hp
    obtain ⟨hid, hfenced⟩ := h.pending p₀ hp₀ id' account' hcandidate
    refine ⟨hid, hfenced.1, fun current hcurrent => ?_⟩
    have hcurrent' : w.db.users.lookup id' = some current := by
      rw [← hinserted.users]
      exact hcurrent
    obtain ⟨hle, hsame⟩ := hfenced.2 current hcurrent'
    refine ⟨hle, fun hepoch => ?_⟩
    obtain ⟨rfl, hall⟩ := hsame hepoch
    refine ⟨rfl, fun d hd => ?_⟩
    rcases List.mem_cons.mp hd with rfl | hmem
    · exact hcurrent
    · exact hall d hmem

/-- The invariant with other pending logins, each of them fenced. -/
theorem Inv.of_pending (h : Inv c w) {pending : List Pending}
    (hpending : ∀ p ∈ pending, ∀ id account, p.candidate = some (id, account) →
      id ∈ w.ids ∧ Fenced p w.db id account) : Inv c { w with pending := pending } :=
  ⟨h.known, h.bounded, h.nodup, h.drawn, h.distinct, h.sessions, hpending⟩

theorem Inv.of_drawn (h : Inv c w) {digest : Bytes} :
    Inv c { w with drawn := digest :: w.drawn } :=
  ⟨h.known, h.bounded, h.nodup, fun t ht => List.mem_cons_of_mem _ (h.drawn t ht), h.distinct,
    h.sessions, h.pending⟩

theorem Inv.settleToken (h : Inv c w) (id : Nat) {since : List Db}
    {r : Except String (Db × Option User)} (hfresh : c.sha256 token ∉ w.drawn)
    (hr : ∀ db' user, r = .ok (db', some user) → user.id = id ∧
      Inserted w.db db' (c.sha256 token) id ∧ account.enabled = true ∧
      w.db.users.lookup id = some account ∧ ∀ d ∈ since, d.users.lookup id = some account) :
    Inv c (w.settleToken token (c.sha256 token) account since r) := by
  rcases r with e | ⟨db', _ | user⟩
  · exact h.of_drawn
  · exact h.of_drawn
  · obtain ⟨hid, hinserted, henabled, hlookup, hsince⟩ := hr db' user rfl
    obtain rfl := hid
    exact h.insertToken hfresh hinserted henabled hlookup hsince

theorem readCandidate_eq_ok {username : Bytes}
    (h : readCandidate db username = .ok (some (id, account))) :
    db.users.lookup id = some account ∧ account.passwordEpoch < 2 ^ 63 := by
  unfold readCandidate at h
  split at h
  · cases h
  next found hfind =>
    simp only [bind_eq_ok, ensure_eq_ok] at h
    obtain ⟨_, hepoch, heq⟩ := h
    obtain ⟨rfl, rfl⟩ := Prod.mk.inj (Option.some.inj (Except.ok.inj heq))
    exact ⟨findUser_eq_some hfind, hepoch⟩

/-- **Step**: every event keeps the invariant. -/
theorem inv_step {w' : World} {event : Event} (h : Inv c w)
    (hstep : (store c).step w event = some w') : Inv c w' := by
  cases event with
  | bootstrap now username password salt =>
    obtain rfl := Option.some.inj hstep
    exact h.settleUser fun _ _ hr => bootstrap_keeps hr
  | create now authority username password role salt =>
    obtain rfl := Option.some.inj hstep
    exact h.settleUser fun _ _ hr => create_keeps hr
  | update now authority id role enabled password salt =>
    simp only [store] at hstep
    split at hstep
    next db' _ hupdate =>
      obtain rfl := Option.some.inj hstep
      obtain ⟨hkeeps, hnext, hnone⟩ := update_keeps hupdate
      exact h.commit_old hkeeps hnext hnone
    next => exact Option.some.inj hstep ▸ h
  | delete now authority id =>
    simp only [store] at hstep
    split at hstep
    next db' _ hdelete =>
      obtain rfl := Option.some.inj hstep
      obtain ⟨hkeeps, hnext, hnone⟩ := delete_keeps hdelete
      exact h.commit_old hkeeps hnext hnone
    next => exact Option.some.inj hstep ▸ h
  | loginRead username password =>
    simp only [store] at hstep
    split at hstep
    next candidate hread =>
      obtain rfl := Option.some.inj hstep
      refine h.of_pending fun p hp id account hcandidate => ?_
      rcases List.mem_cons.mp hp with rfl | hold
      · -- the account has just been read
        have hcandidate : candidate = some (id, account) := hcandidate
        rw [hcandidate] at hread
        obtain ⟨hlookup, hepoch⟩ := readCandidate_eq_ok hread
        refine ⟨h.known id account hlookup, hepoch, fun account' haccount' => ?_⟩
        obtain rfl := Option.some.inj (hlookup.symm.trans haccount')
        refine ⟨le_rfl, fun _ => ⟨rfl, fun d hd => ?_⟩⟩
        rw [List.mem_singleton.mp hd]
        exact hlookup
      · exact h.pending p hold id account hcandidate
    next => exact Option.some.inj hstep ▸ h
  | loginCheck i =>
    simp only [store] at hstep
    split at hstep
    · cases hstep
    next p hp =>
      split at hstep
      · obtain rfl := Option.some.inj hstep
        refine h.of_pending fun q hq id account hcandidate => ?_
        rcases List.mem_or_eq_of_mem_set hq with hold | rfl
        · exact h.pending q hold id account hcandidate
        · exact h.pending p (List.mem_of_getElem? hp) id account hcandidate
      · obtain rfl := Option.some.inj hstep
        exact h.of_pending fun q hq =>
          h.pending q ((List.eraseIdx_sublist _ _).subset hq)
  | loginInsert i now token =>
    simp only [store] at hstep
    split at hstep
    · cases hstep
    next p hp =>
      split at hstep
      next id account hcandidate hverified =>
        split at hstep
        · cases hstep
        next hfresh =>
          obtain rfl := Option.some.inj hstep
          have hrest : Inv c { w with pending := w.pending.eraseIdx i } :=
            h.of_pending fun q hq => h.pending q ((List.eraseIdx_sublist _ _).subset hq)
          refine hrest.settleToken id hfresh fun db' user hlogin => ?_
          obtain ⟨hid, hinserted, current, hcurrent, henabled, hepoch⟩ := insertLogin_inserted hlogin
          -- the epoch is still the one that was read, so the account is, too
          obtain ⟨-, -, hfenced⟩ := h.pending p (List.mem_of_getElem? hp) id account hcandidate
          obtain ⟨rfl, hsince⟩ := (hfenced current hcurrent).2 hepoch
          exact ⟨hid, hinserted, henabled, hcurrent, hsince⟩
      next => cases hstep
  | ssoLease now username token =>
    simp only [store] at hstep
    split at hstep
    · cases hstep
    next hfresh =>
      split at hstep
      · exact Option.some.inj hstep ▸ h
      next id account hfind =>
        obtain rfl := Option.some.inj hstep
        refine h.settleToken id hfresh fun db' user hlease => ?_
        obtain ⟨hid, hinserted, henabled⟩ := ssoLease_inserted hfind hlease
        have hlookup := findUser_eq_some hfind
        refine ⟨hid, hinserted, henabled, hlookup, fun d hd => ?_⟩
        rw [List.mem_singleton.mp hd]
        exact hlookup
  | logout token =>
    obtain rfl := Option.some.inj hstep
    exact h.commit_old logout_keeps rfl fun _ hnone => hnone
  | fault => exact Option.some.inj hstep ▸ h

/-! ## Revocation -/

/-- The token was handed out, and the account it was handed out for is `id`, enabled and
    unchanged since it was read for that. -/
def Backed (c : Crypto) (w : World) (token : Bytes) (id : Nat) : Prop :=
  (∃ t ∈ w.created, c.sha256 t.token = c.sha256 token) ∧
  ∀ t ∈ w.created, c.sha256 t.token = c.sha256 token → t.userId = id ∧ t.account.enabled = true ∧
    w.db.users.lookup id = some t.account ∧ ∀ db ∈ t.since, db.users.lookup id = some t.account

theorem liveSession_backed (h : Inv c w)
    (hlive : w.db.liveSession c now token = some (id, account)) : Backed c w token id := by
  simp only [Db.liveSession, Option.bind_eq_bind, Option.bind_eq_some_iff] at hlive
  obtain ⟨s, hs, _, -, _, -, _, -, hid⟩ := hlive
  obtain rfl : s.userId = id := (Prod.mk.inj (Option.some.inj hid)).1
  obtain ⟨t, ht, hdigest, huser, henabled, hlookup, hsince⟩ := h.sessions _ s hs
  refine ⟨⟨t, ht, hdigest⟩, fun t' ht' hdigest' => ?_⟩
  -- no two tokens have this digest
  obtain rfl : t' = t :=
    List.inj_on_of_nodup_map h.distinct ht' ht (hdigest'.trans hdigest.symm)
  exact ⟨huser, henabled, huser ▸ hlookup, huser ▸ hsince⟩

/-- **Revocation.** However logins, leases, logouts and account changes interleave: a
    token that a lookup or an authorization accepts belongs to an existing and enabled
    account that is, in every database since it was read for this token, as it was read.
    And no two accounts ever have the same id. -/
theorem session_revocation (c : Crypto) {w₀ w : World} {events : List Event} (hopened : Opened w₀)
    (hrun : (store c).run w₀ events = some w) :
    (w.ids.Nodup ∧ ∀ id account, w.db.users.lookup id = some account → id ∈ w.ids) ∧
    ∀ (token : Bytes) (now : Nat),
      (∀ user, session c w.db now token = some user → Backed c w token user.id) ∧
      ∀ id, authorizeMutation c w.db now (.session token) = .ok (some id) → Backed c w token id := by
  have hinv : Inv c w :=
    Machine.run_invariant (fun _ _ _ h hstep => inv_step h hstep) (opened_inv hopened) hrun
  refine ⟨⟨hinv.nodup, hinv.known⟩, fun token now => ⟨fun user huser => ?_, fun id hid => ?_⟩⟩
  · unfold session at huser
    split at huser
    · obtain ⟨⟨id, account⟩, hlive, rfl⟩ := Option.map_eq_some_iff.mp huser
      exact liveSession_backed hinv hlive
    · cases huser
  · simp only [authorizeMutation, bind_eq_ok] at hid
    obtain ⟨_, -, hid⟩ := hid
    split at hid
    · cases hid
    next found account hlive =>
      simp only [bind_eq_ok] at hid
      obtain ⟨_, -, heq⟩ := hid
      obtain rfl := Option.some.inj (Except.ok.inj heq)
      exact liveSession_backed hinv hlive

/-! ## One login -/

/-- Digests and derived keys that can be evaluated. -/
def plainCrypto : Crypto := ⟨fun x => 0 :: x, fun password salt => some (password ++ salt)⟩

def rootPassword : Bytes := List.replicate 12 112

def rootAccount : Account := ⟨ascii "root", [1], rootPassword ++ [1], .admin, true, 1⟩

def oneAccount : World where
  db := ⟨AList.singleton 1 rootAccount, ∅, 2⟩
  pending := []
  created := []
  drawn := []
  ids := [1]

theorem oneAccount_opened : Opened oneAccount where
  pending := rfl
  created := rfl
  sessions := rfl
  ids := rfl
  nextUserId := by decide

def rootToken : Bytes := List.replicate 43 116

/-- A login whose token is accepted later on. -/
theorem session_revocation_one_login :
    ∃ w, (store plainCrypto).run oneAccount [.loginRead (ascii "ROOT") rootPassword, .loginCheck 0,
        .loginInsert 0 1000 rootToken] = some w ∧
      session plainCrypto w.db 2000 rootToken = some ⟨1, ascii "root", .admin, true⟩ ∧
      Backed plainCrypto w rootToken 1 := by
  obtain ⟨w, hrun, hsession⟩ : ∃ w, (store plainCrypto).run oneAccount
      [.loginRead (ascii "ROOT") rootPassword, .loginCheck 0, .loginInsert 0 1000 rootToken] =
        some w ∧ session plainCrypto w.db 2000 rootToken = some ⟨1, ascii "root", .admin, true⟩ :=
    ⟨_, rfl, by decide +kernel⟩
  exact ⟨w, hrun, hsession,
    ((session_revocation plainCrypto oneAccount_opened hrun).2 rootToken 2000).1 _ hsession⟩

end AdminUsers
