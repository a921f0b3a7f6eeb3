import Hangang.AdminUsers.Records
import Hangang.AdminUsers.Sessions

/-! # The Last Administrator

    A role, the enabled flag and a deletion can each take the last administrator away, and an
    update can change the first two at once. The store counts the enabled administrators in the
    same transaction, so as soon as there is one, one always stays. -/

open Bytes Except ConfigStore

namespace AdminUsers

/-- Some administrator is enabled. -/
def Db.HasAdmin (db : Db) : Prop :=
  ∃ id account, db.users.lookup id = some account ∧ account.role = .admin ∧ account.enabled = true

variable {c : Crypto} {db db' : Db} {now : Nat}

theorem mem_admins {entry : Sigma fun _ : Nat => Account} :
    entry ∈ (db.users.entries.filter fun entry => entry.2.role = .admin && entry.2.enabled) ↔
      db.users.lookup entry.1 = some entry.2 ∧ entry.2.role = .admin ∧ entry.2.enabled = true := by
  rw [List.mem_filter, ← AList.mem_lookup_iff, Option.mem_def, Bool.and_eq_true,
    decide_eq_true_iff]

theorem Db.HasAdmin.one_le (h : db.HasAdmin) : 1 ≤ db.enabledAdmins := by
  obtain ⟨id, account, hadmin⟩ := h
  have hmem := (@mem_admins db ⟨id, account⟩).mpr hadmin
  exact List.length_pos_of_mem hmem

/-- With two of them, one is not the account at hand. -/
theorem exists_other_admin (h : 1 < db.enabledAdmins) (id : Nat) :
    ∃ id' account, id' ≠ id ∧ db.users.lookup id' = some account ∧ account.role = .admin ∧
      account.enabled = true := by
  by_contra hnone
  -- then all of them have this id, which is a key
  have hsame : ∀ key ∈ (db.users.entries.filter fun entry =>
      entry.2.role = .admin && entry.2.enabled).map Sigma.fst, key = id := by
    intro key hkey
    obtain ⟨entry, hentry, rfl⟩ := List.mem_map.mp hkey
    by_contra hne
    exact hnone ⟨entry.1, entry.2, hne, mem_admins.mp hentry⟩
  have hnodup : ((db.users.entries.filter fun entry =>
      entry.2.role = .admin && entry.2.enabled).map Sigma.fst).Nodup :=
    List.NodupKeys.sublist List.filter_sublist db.users.nodupKeys
  rw [List.eq_replicate_of_mem hsame, List.nodup_replicate, List.length_map] at hnodup
  unfold Db.enabledAdmins at h
  omega

variable {id : Nat} {password salt username : Bytes} {authority : MutationAuthority} {user : User}

/-- An account is replaced or removed: an administrator stays if the new account is one, if
    the old one was none, or if there were two. -/
theorem Db.HasAdmin.of_other (hadmin : db.HasAdmin) {account : Account}
    (haccount : db.users.lookup id = some account)
    (hothers : ∀ id', id' ≠ id → db'.users.lookup id' = db.users.lookup id')
    (hguard : account.role = .admin → account.enabled = true → 1 < db.enabledAdmins) :
    db'.HasAdmin := by
  have hother : ∃ id' account', id' ≠ id ∧ db.users.lookup id' = some account' ∧
      account'.role = .admin ∧ account'.enabled = true := by
    by_cases hold : account.role = .admin ∧ account.enabled = true
    · exact exists_other_admin (hguard hold.1 hold.2) id
    · obtain ⟨id', account', hlookup, hrole⟩ := hadmin
      refine ⟨id', account', ?_, hlookup, hrole⟩
      rintro rfl
      obtain rfl := Option.some.inj (hlookup.symm.trans haccount)
      exact hold hrole
  obtain ⟨id', account', hne, hlookup, hrole⟩ := hother
  exact ⟨id', account', (hothers id' hne).trans hlookup, hrole⟩

theorem updated_fields (account : Account) (role : Role) (enabled : Bool)
    (password : Option (Bytes × Bytes)) :
    (account.updated role enabled password).role = role ∧
      (account.updated role enabled password).enabled = enabled := by
  cases password with
  | none => exact ⟨rfl, rfl⟩
  | some new => exact ⟨rfl, rfl⟩

/-- **Update**: the last administrator stays one. -/
theorem update_hasAdmin {role : Option Role} {enabled : Option Bool} {password : Option Bytes}
    {change : Change} (hadmin : db.HasAdmin)
    (h : update c db now authority id role enabled password salt = .ok (db', change)) :
    db'.HasAdmin := by
  simp only [update, bind_eq_ok] at h
  obtain ⟨new, -, _, -, h⟩ := h
  split at h
  · obtain ⟨rfl, -⟩ := ok_pair_inj h
    exact hadmin
  next account haccount =>
    split at h
    · obtain ⟨rfl, -⟩ := ok_pair_inj h
      exact hadmin
    next hguard =>
      have husers : db'.users = db.users.insert id
          (account.updated (role.getD account.role) (enabled.getD account.enabled) new) := by
        split at h
        · rw [← (ok_pair_inj h).1]
          rfl
        · rw [← (ok_pair_inj h).1]
      obtain ⟨hrole, henabled⟩ := updated_fields account (role.getD account.role)
        (enabled.getD account.enabled) new
      by_cases hstays : role.getD account.role = .admin ∧ enabled.getD account.enabled = true
      · refine ⟨id, _, ?_, hrole.trans hstays.1, henabled.trans hstays.2⟩
        rw [husers]
        exact AList.lookup_insert _
      · refine hadmin.of_other haccount (fun id' hne => ?_) fun hadminRole hadminEnabled => ?_
        · rw [husers, AList.lookup_insert_ne hne]
        · by_contra hfew
          refine hguard ⟨hadminRole, hadminEnabled, ?_, Nat.not_lt.mp hfew⟩
          by_contra hkept
          rw [not_or, not_not, Bool.not_eq_true, Bool.not_eq_false'] at hkept
          exact hstays hkept

/-- **Delete**: the last administrator is not deleted. -/
theorem delete_hasAdmin {change : Change} (hadmin : db.HasAdmin)
    (h : delete c db now authority id = .ok (db', change)) :
    db'.HasAdmin := by
  simp only [delete, bind_eq_ok] at h
  obtain ⟨_, -, h⟩ := h
  split at h
  · obtain ⟨rfl, -⟩ := ok_pair_inj h
    exact hadmin
  next account haccount =>
    split at h
    · obtain ⟨rfl, -⟩ := ok_pair_inj h
      exact hadmin
    next hguard =>
      obtain ⟨rfl, -⟩ := ok_pair_inj h
      refine hadmin.of_other haccount (fun id' hne => AList.lookup_erase_ne hne)
        fun hadminRole hadminEnabled => ?_
      by_contra hfew
      exact hguard ⟨hadminRole, hadminEnabled, Nat.not_lt.mp hfew⟩

theorem insertUser_lookup {tx : Db} {account : Account}
    (hallocate : allocateUserId db = .ok (id, tx)) (hinsert : tx.insertUser id account = .ok db') :
    db'.users.lookup id = some account ∧
      ∀ id' old, db.users.lookup id' = some old → db'.users.lookup id' = some old := by
  simp only [allocateUserId, bind_eq_ok, Except.ok.injEq, Prod.mk.injEq] at hallocate
  obtain ⟨_, -, rfl, rfl⟩ := hallocate
  simp only [Db.insertUser, bind_eq_ok, ensure_eq_ok, Except.ok.injEq] at hinsert
  obtain ⟨_, ⟨hfree, -⟩, rfl⟩ := hinsert
  refine ⟨AList.lookup_insert _, fun id' old hold => ?_⟩
  show (db.users.insert _ _).lookup id' = some old
  rw [AList.lookup_insert_ne]
  · exact hold
  · rintro rfl
    rw [hold] at hfree
    cases hfree

/-- **Bootstrap** succeeds in an empty store only, and leaves an administrator. -/
theorem bootstrap_hasAdmin (h : bootstrap c db username password salt = .ok (db', some user)) :
    ¬ db.HasAdmin ∧ db'.HasAdmin := by
  simp only [bootstrap, bind_eq_ok] at h
  obtain ⟨_, -, _, -, hash, -, h⟩ := h
  split at h
  · cases (ok_pair_inj h).2
  next hempty =>
    simp only [bind_eq_ok] at h
    obtain ⟨⟨id, tx⟩, hallocate, _, hinsert, h⟩ := h
    obtain ⟨rfl, -⟩ := ok_pair_inj h
    refine ⟨?_, id, _, (insertUser_lookup hallocate hinsert).1, rfl, rfl⟩
    rintro ⟨id', account, hlookup, -⟩
    exact hempty (Nat.ne_of_gt (List.length_pos_of_mem (AList.mem_lookup_iff.mp hlookup)))

theorem create_hasAdmin {role : Role} (hadmin : db.HasAdmin)
    (h : create c db now authority username password role salt = .ok (db', some user)) :
    db'.HasAdmin := by
  simp only [create, bind_eq_ok] at h
  obtain ⟨_, -, _, -, hash, -, _, -, h⟩ := h
  split at h
  · cases (ok_pair_inj h).2
  · simp only [bind_eq_ok] at h
    obtain ⟨⟨id, tx⟩, hallocate, _, hinsert, h⟩ := h
    obtain ⟨rfl, -⟩ := ok_pair_inj h
    obtain ⟨id', account, hlookup, hrole⟩ := hadmin
    exact ⟨id', account, (insertUser_lookup hallocate hinsert).2 id' account hlookup, hrole⟩

/-! ## Runs -/

variable {Config : Type} {json : AuditPolicy → Bytes} {f : Format Config} {s s' : Records}
  {call : Call} {accepted : Bool}

/-- A lease is for an account. -/
theorem findUser_of_ssoLease {token : Bytes}
    (h : ssoLease c db now username token = .ok (db', some user)) :
    ∃ id account, db.findUser username = some (id, account) := by
  obtain ⟨_, -, h⟩ := bind_eq_ok.mp h
  split at h
  · cases (ok_pair_inj h).2
  next id account hfind => exact ⟨id, account, hfind⟩

/-- Calls on sessions leave accounts alone. -/
theorem SessionCall.users_eq (h : SessionCall c db call db') : db'.users = db.users := by
  cases h with
  | login h => exact (insertLogin_inserted h).2.1.users
  | ssoLease h =>
    obtain ⟨id, account, hfind⟩ := findUser_of_ssoLease h
    exact (ssoLease_inserted hfind h).2.1.users
  | logout => rfl

/-- **Step**: as soon as there is an administrator, one stays. -/
theorem Effect.hasAdmin (h : Effect c json f s call s' accepted) (hadmin : s.accounts.HasAdmin) :
    s'.accounts.HasAdmin := by
  cases h with
  | refused => exact hadmin
  | bootstrap h haction happended => exact (bootstrap_hasAdmin h).2
  | mutation h haction htarget haudit =>
    cases h with
    | create h => exact create_hasAdmin hadmin h
    | update h => exact update_hasAdmin hadmin h
    | delete h => exact delete_hasAdmin hadmin h
  | session h =>
    obtain ⟨id, account, hlookup, hrole⟩ := hadmin
    refine ⟨id, account, ?_, hrole⟩
    rw [h.users_eq]
    exact hlookup
  | setAuditPolicy h => exact hadmin
  | pruneAudit h => exact hadmin
  | journal h => exact hadmin
  | pruneConfigOperations h haction happended => exact hadmin

theorem next_hasAdmin (hadmin : s.accounts.HasAdmin) (call : Call) :
    (s.next c json f call).accounts.HasAdmin := by
  rcases @next_cases _ c json f s call with ⟨e, -, hsame⟩ | ⟨accepted, -, heffect⟩
  · rw [hsame]
    exact hadmin
  · exact heffect.hasAdmin hadmin

theorem records_bootstrap_eq_ok {nowMs : Nat}
    (h : s.bootstrap c json nowMs username password salt = .ok (s', some user)) :
    bootstrap c s.accounts username password salt = .ok (s'.accounts, some user) := by
  obtain ⟨⟨accounts, created⟩, haccounts, h⟩ := bind_eq_ok.mp h
  cases created with
  | none => cases (ok_pair_inj h).2
  | some created =>
    obtain ⟨appended, -, h⟩ := bind_eq_ok.mp h
    obtain ⟨rfl, huser⟩ := ok_pair_inj h
    rw [← huser]
    exact haccounts

/-- **Administrators**: after a bootstrap, whatever is called, some administrator is enabled
    and no other bootstrap succeeds. A call that is refused changes nothing at all. -/
theorem last_administrator (c : Crypto) (json : AuditPolicy → Bytes) (f : Format Config) :
    (∀ (s s₁ : Records) (nowMs : Nat) (username password salt : Bytes) (user : User),
      s.bootstrap c json nowMs username password salt = .ok (s₁, some user) →
      ∀ calls s₂, (records c json f).run s₁ calls = some s₂ →
        1 ≤ s₂.accounts.enabledAdmins ∧
          ∀ nowMs username password salt s₃ user,
            s₂.bootstrap c json nowMs username password salt ≠ .ok (s₃, some user)) ∧
      ∀ (s : Records) (call : Call), (∀ s', s.perform c json f call ≠ .ok (s', true)) →
        s.next c json f call = s := by
  constructor
  · intro s s₁ nowMs username password salt user hbootstrap calls s₂ hrun
    have hfirst := (bootstrap_hasAdmin (records_bootstrap_eq_ok hbootstrap)).2
    have hstep : ∀ (s : Records) call s', s.accounts.HasAdmin →
        (records c json f).step s call = some s' → s'.accounts.HasAdmin := by
      intro s call s' hadmin hstep
      rw [← Option.some.inj hstep]
      exact next_hasAdmin hadmin call
    have hadmin : s₂.accounts.HasAdmin := Machine.run_invariant hstep hfirst hrun
    refine ⟨hadmin.one_le, ?_⟩
    intro nowMs username password salt s₃ user hsecond
    exact (bootstrap_hasAdmin (records_bootstrap_eq_ok hsecond)).1 hadmin
  · intro s call hrefused
    exact next_eq_of_refused hrefused

/-- The text of a policy; of its rules only the ids. -/
def policyJson (policy : AuditPolicy) : Bytes :=
  ascii "\x7b\"default_action\":" ++
    (match policy.defaultAction with
      | .record => ascii "\"record\""
      | .drop => ascii "\"drop\"") ++
    ascii ",\"rules\":[" ++ policy.rules.flatMap AuditFilterRule.id ++ ascii "]\x7d"

def emptyStore : Records :=
  Records.created noteFormat ⟨∅, ∅, 1⟩ 0 (List.replicate 32 97)

/-- The first administrator cannot be deleted, and there is no second first one. -/
theorem last_administrator_root :
    ∃ s s', emptyStore.bootstrap plainCrypto policyJson 0 (ascii "root") rootPassword [1] =
        .ok (s, some ⟨1, ascii "root", .admin, true⟩) ∧
      (records plainCrypto policyJson noteFormat).run s [.delete 0 0 .system 1] = some s' ∧
      1 ≤ s'.accounts.enabledAdmins := by
  obtain ⟨s, hs⟩ : ∃ s, emptyStore.bootstrap plainCrypto policyJson 0 (ascii "root")
      rootPassword [1] = .ok (s, some ⟨1, ascii "root", .admin, true⟩) := ⟨_, rfl⟩
  obtain ⟨s', hs'⟩ : ∃ s', (records plainCrypto policyJson noteFormat).run s
      [.delete 0 0 .system 1] = some s' := ⟨_, rfl⟩
  obtain ⟨hruns, -⟩ := last_administrator plainCrypto policyJson noteFormat
  exact ⟨s, s', hs, hs', (hruns emptyStore s 0 (ascii "root") rootPassword [1] _ hs _ s' hs').1⟩

end AdminUsers
