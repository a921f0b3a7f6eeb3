import Hangang.AdminUsers.Administrators

/-! # Session Quotas

    A login makes room among the sessions of its own account only, and a lease makes none. Both
    delete what has expired. So the two bounds hold in every state of the store, and no account
    can log another one out. -/

open Bytes Except ConfigStore

namespace AdminUsers

/-- The sessions of an account. -/
def Db.sessionsOf (db : Db) (id : Nat) : Table Bytes Session :=
  Table.retain (fun _ session => session.userId = id) db.sessions

variable {c : Crypto} {db db' tx : Db} {now id : Nat} {digest token : Bytes} {s : Session}

theorem lookup_sessionsOf :
    (db.sessionsOf id).lookup digest = some s ↔
      db.sessions.lookup digest = some s ∧ s.userId = id := by
  rw [Db.sessionsOf, Table.lookup_retain, Option.filter_eq_some_iff, decide_eq_true_iff]

/-- Sessions go, none comes. -/
def Fewer (db db' : Db) : Prop :=
  ∀ digest s, db'.sessions.lookup digest = some s → db.sessions.lookup digest = some s

theorem Fewer.trans {db₁ db₂ db₃ : Db} (h : Fewer db₁ db₂) (h' : Fewer db₂ db₃) :
    Fewer db₁ db₃ := fun digest s hs => h digest s (h' digest s hs)

theorem Fewer.sessionsOf_le (h : Fewer db db') (id : Nat) :
    (db'.sessionsOf id).size ≤ (db.sessionsOf id).size := by
  refine Table.size_le_of_lookup fun digest s hs => ?_
  obtain ⟨hlookup, howner⟩ := lookup_sessionsOf.mp hs
  exact lookup_sessionsOf.mpr ⟨h digest s hlookup, howner⟩

theorem mem_sessionsByAge :
    digest ∈ db.sessionsByAge id ↔ ∃ s, (db.sessionsOf id).lookup digest = some s := by
  unfold Db.sessionsByAge
  rw [List.mem_map]
  constructor
  · rintro ⟨entry, hentry, rfl⟩
    obtain ⟨hmem, howner⟩ := List.mem_filter.mp ((List.mem_insertionSort _).mp hentry)
    exact ⟨entry.2, lookup_sessionsOf.mpr
      ⟨AList.mem_lookup_iff.mpr hmem, of_decide_eq_true howner⟩⟩
  · rintro ⟨s, hs⟩
    obtain ⟨hlookup, howner⟩ := lookup_sessionsOf.mp hs
    refine ⟨⟨digest, s⟩, (List.mem_insertionSort _).mpr (List.mem_filter.mpr ?_), rfl⟩
    exact ⟨AList.mem_lookup_iff.mp hlookup, decide_eq_true howner⟩

theorem length_sessionsByAge (db : Db) (id : Nat) :
    (db.sessionsByAge id).length = (db.sessionsOf id).size := by
  unfold Db.sessionsByAge Db.sessionsOf Table.size Table.retain
  rw [List.length_map, List.length_insertionSort]

/-! ## Trimming -/

theorem lookup_deleteDigests_iff {digests : List Bytes} :
    (db.deleteDigests digests).sessions.lookup digest = some s ↔
      db.sessions.lookup digest = some s ∧ digest ∉ digests := by
  rw [Db.deleteDigests, Table.lookup_retain, Option.filter_eq_some_iff, decide_eq_true_iff]

theorem lookup_deleteExpired_iff :
    (db.deleteExpired now).sessions.lookup digest = some s ↔
      db.sessions.lookup digest = some s ∧ now < s.expiresAt := by
  rw [Db.deleteExpired, Table.lookup_retain, Option.filter_eq_some_iff, decide_eq_true_iff]

/-- The oldest sessions of an account go, the newest `n` stay. -/
theorem sessionsOf_trimmed (db : Db) (id n : Nat) :
    ((db.deleteDigests ((db.sessionsByAge id).take
      ((db.sessionsByAge id).length - n))).sessionsOf id).size ≤ n := by
  have hkeys : ((db.deleteDigests ((db.sessionsByAge id).take
      ((db.sessionsByAge id).length - n))).sessionsOf id).keys ⊆
      (db.sessionsByAge id).drop ((db.sessionsByAge id).length - n) := by
    intro digest hdigest
    obtain ⟨s, hs⟩ := Option.isSome_iff_exists.mp (AList.lookup_isSome.mpr hdigest)
    obtain ⟨hlookup, howner⟩ := lookup_sessionsOf.mp hs
    obtain ⟨hbefore, hkept⟩ := lookup_deleteDigests_iff.mp hlookup
    have hmem : digest ∈ db.sessionsByAge id :=
      mem_sessionsByAge.mpr ⟨s, lookup_sessionsOf.mpr ⟨hbefore, howner⟩⟩
    rw [← List.take_append_drop ((db.sessionsByAge id).length - n) (db.sessionsByAge id)] at hmem
    exact (List.mem_append.mp hmem).resolve_left hkept
  have hlength := (List.subperm_of_subset (AList.keys_nodup _) hkeys).length_le
  rw [List.length_drop] at hlength
  have hsize : ((db.deleteDigests ((db.sessionsByAge id).take
      ((db.sessionsByAge id).length - n))).sessionsOf id).keys.length =
      ((db.deleteDigests ((db.sessionsByAge id).take
        ((db.sessionsByAge id).length - n))).sessionsOf id).size := List.length_map _
  omega

/-- Room for a session of an account: below both bounds, and nobody else's session is gone
    that had not expired. -/
structure Room (db tx : Db) (now id : Nat) : Prop where
  fewer : Fewer db tx
  total : tx.sessions.size < maxSessions
  own : (tx.sessionsOf id).size < maxSessionsPerUser
  others : ∀ digest s, db.sessions.lookup digest = some s → now < s.expiresAt → s.userId ≠ id →
    tx.sessions.lookup digest = some s

/-- Deleting sessions of the account keeps those of the others. -/
theorem lookup_deleteOwn {digests : List Bytes}
    (hown : ∀ digest ∈ digests, digest ∈ db.sessionsByAge id)
    (hs : db.sessions.lookup digest = some s) (hother : s.userId ≠ id) :
    (db.deleteDigests digests).sessions.lookup digest = some s := by
  refine lookup_deleteDigests_iff.mpr ⟨hs, fun hmem => ?_⟩
  obtain ⟨s', hs'⟩ := mem_sessionsByAge.mp (hown digest hmem)
  obtain ⟨hlookup, howner⟩ := lookup_sessionsOf.mp hs'
  obtain rfl := Option.some.inj (hlookup.symm.trans hs)
  exact hother howner

/-- The transaction of a login before its insertion, without the oldest session of the account
    if the store is full. -/
def Db.trimmed (db : Db) (now id : Nat) : Db :=
  (db.deleteExpired now).deleteDigests (((db.deleteExpired now).sessionsByAge id).take
    (((db.deleteExpired now).sessionsByAge id).length - (maxSessionsPerUser - 1)))

theorem trimmed_fewer (db : Db) (now id : Nat) : Fewer db (db.trimmed now id) :=
  fun _ _ hs => (lookup_deleteExpired_iff.mp (lookup_deleteDigests_iff.mp hs).1).1

theorem trimmed_own (db : Db) (now id : Nat) :
    ((db.trimmed now id).sessionsOf id).size < maxSessionsPerUser := by
  have hle := sessionsOf_trimmed (db.deleteExpired now) id (maxSessionsPerUser - 1)
  exact Nat.lt_of_le_of_lt hle (by decide)

theorem trimmed_others (hs : db.sessions.lookup digest = some s) (hlive : now < s.expiresAt)
    (hother : s.userId ≠ id) :
    (db.trimmed now id).sessions.lookup digest = some s :=
  lookup_deleteOwn (fun _ hmem => List.mem_of_mem_take hmem)
    (lookup_deleteExpired_iff.mpr ⟨hs, hlive⟩) hother

/-- **Login** makes room, and inserts one session. -/
theorem insertLogin_room {epoch : Nat} {user : User} (hquota : db.sessions.size ≤ maxSessions)
    (h : insertLogin c db now id epoch token = .ok (db', some user)) :
    ∃ tx, Room db tx now id ∧
      tx.insertSession (c.sha256 token) ⟨id, now + sessionSeconds, now⟩ = .ok db' := by
  unfold insertLogin at h
  split at h
  · cases (ok_pair_inj h).2
  next found hfound =>
    -- the candidate is the account itself
    have hid : found.id = id := by
      unfold loginCandidate at hfound
      split at hfound
      · cases hfound
      · split at hfound
        · rw [← Option.some.inj hfound]
          rfl
        · cases hfound
    rw [hid] at h
    have hfewer := trimmed_fewer db now id
    simp only at h
    split at h
    -- the table is full: the account's oldest session makes room
    next hfull =>
      split at h
      · cases (ok_pair_inj h).2
      next oldest rest hoptions =>
        obtain ⟨db'', hinsert, h⟩ := bind_eq_ok.mp h
        obtain ⟨rfl, -⟩ := ok_pair_inj h
        have holdest : oldest ∈ oldest :: rest := List.mem_cons_self
        rw [← hoptions] at holdest
        have hshrunk : Fewer (db.trimmed now id) ((db.trimmed now id).deleteDigests [oldest]) :=
          fun _ _ hs => (lookup_deleteDigests_iff.mp hs).1
        refine ⟨(db.trimmed now id).deleteDigests [oldest], ⟨hfewer.trans hshrunk, ?_, ?_, ?_⟩,
          hinsert⟩
        · obtain ⟨s, hs⟩ := mem_sessionsByAge.mp holdest
          have hgone : ((db.trimmed now id).deleteDigests [oldest]).sessions.lookup oldest =
              none := by
            rw [Option.eq_none_iff_forall_ne_some]
            intro s' hs'
            exact (lookup_deleteDigests_iff.mp hs').2 List.mem_cons_self
          have hlt := Table.size_lt_of_lookup hshrunk hgone (lookup_sessionsOf.mp hs).1
          exact Nat.lt_of_lt_of_le hlt
            (Nat.le_trans (Table.size_le_of_lookup hfewer) hquota)
        · exact Nat.lt_of_le_of_lt (hshrunk.sessionsOf_le id) (trimmed_own db now id)
        · intro digest s hs hlive hother
          refine lookup_deleteOwn ?_ (trimmed_others hs hlive hother) hother
          intro digest' hdigest'
          rw [List.mem_singleton.mp hdigest']
          exact holdest
    -- trimming was enough
    next hroom =>
      obtain ⟨db'', hinsert, h⟩ := bind_eq_ok.mp h
      obtain ⟨rfl, -⟩ := ok_pair_inj h
      refine ⟨db.trimmed now id, ⟨hfewer, Nat.not_le.mp hroom, trimmed_own db now id, ?_⟩, hinsert⟩
      exact fun digest s hs hlive hother => trimmed_others hs hlive hother

/-- **Lease**: it removes what has expired only. -/
theorem ssoLease_room {username : Bytes} {user : User}
    (h : ssoLease c db now username token = .ok (db', some user)) :
    ∃ id, Room db (db.deleteExpired now) now id ∧
      (db.deleteExpired now).insertSession (c.sha256 token) ⟨id, now + 5, now⟩ = .ok db' := by
  obtain ⟨_, -, h⟩ := bind_eq_ok.mp h
  split at h
  · cases (ok_pair_inj h).2
  next id account hfind =>
    split at h
    · cases (ok_pair_inj h).2
    · simp only at h
      split at h
      · cases (ok_pair_inj h).2
      next hroom =>
        obtain ⟨tx, hinsert, h⟩ := bind_eq_ok.mp h
        obtain ⟨rfl, -⟩ := ok_pair_inj h
        rw [not_or, Nat.not_le, Nat.not_le, length_sessionsByAge] at hroom
        refine ⟨id, ⟨?_, hroom.1, hroom.2, ?_⟩, hinsert⟩
        · exact fun digest s hs => (lookup_deleteExpired_iff.mp hs).1
        · exact fun digest s hs hlive _ => lookup_deleteExpired_iff.mpr ⟨hs, hlive⟩

/-! ## The bounds -/

/-- Both bounds. -/
structure WithinQuota (db : Db) : Prop where
  total : db.sessions.size ≤ maxSessions
  own : ∀ id, (db.sessionsOf id).size ≤ maxSessionsPerUser

theorem WithinQuota.fewer (h : WithinQuota db) (hfewer : Fewer db db') : WithinQuota db' :=
  ⟨Nat.le_trans (Table.size_le_of_lookup hfewer) h.total,
    fun id => Nat.le_trans (hfewer.sessionsOf_le id) (h.own id)⟩

theorem insertSession_eq_ok (h : tx.insertSession digest s = .ok db') :
    tx.sessions.lookup digest = none ∧ db'.sessions = tx.sessions.insert digest s := by
  obtain ⟨_, hfree, h⟩ := bind_eq_ok.mp h
  obtain rfl := Except.ok.inj h
  exact ⟨Option.isNone_iff_eq_none.mp (ensure_eq_ok.mp hfree), rfl⟩

/-- **Insert**: where there is room, the bounds hold with one session more. -/
theorem WithinQuota.insert (h : WithinQuota db) (hroom : Room db tx now id) (howner : s.userId = id)
    (hinsert : tx.insertSession digest s = .ok db') :
    WithinQuota db' := by
  obtain ⟨-, hsessions⟩ := insertSession_eq_ok hinsert
  constructor
  · rw [hsessions]
    exact Nat.le_trans (Table.size_insert_le _ _ _) hroom.total
  · intro id'
    by_cases hid : id' = id
    · subst hid
      have hle : (db'.sessionsOf id').size ≤ Table.size ((tx.sessionsOf id').insert digest s) := by
        refine Table.size_le_of_lookup fun digest' s' hs' => ?_
        obtain ⟨hlookup, howner'⟩ := lookup_sessionsOf.mp hs'
        rw [hsessions] at hlookup
        by_cases hdigest : digest' = digest
        · subst hdigest
          rw [AList.lookup_insert] at hlookup
          rw [AList.lookup_insert]
          exact hlookup
        · rw [AList.lookup_insert_ne hdigest] at hlookup
          rw [AList.lookup_insert_ne hdigest]
          exact lookup_sessionsOf.mpr ⟨hlookup, howner'⟩
      exact Nat.le_trans hle (Nat.le_trans (Table.size_insert_le _ _ _) hroom.own)
    · refine Nat.le_trans (Table.size_le_of_lookup fun digest' s' hs' => ?_) (h.own id')
      obtain ⟨hlookup, howner'⟩ := lookup_sessionsOf.mp hs'
      rw [hsessions] at hlookup
      rcases Table.lookup_of_insert hlookup with ⟨rfl, rfl⟩ | hold
      · exact absurd (howner'.symm.trans howner) hid
      · exact lookup_sessionsOf.mpr ⟨hroom.fewer digest' s' hold, howner'⟩

/-- What was there before an insertion still is. -/
theorem insertSession_kept {digest' : Bytes} {s' : Session}
    (hinsert : tx.insertSession digest' s' = .ok db') (hs : tx.sessions.lookup digest = some s) :
    db'.sessions.lookup digest = some s := by
  obtain ⟨hfree, hsessions⟩ := insertSession_eq_ok hinsert
  rw [hsessions, AList.lookup_insert_ne]
  · exact hs
  · rintro rfl
    rw [hs] at hfree
    cases hfree

/-! ## Runs -/

variable {Config : Type} {json : AuditPolicy → Bytes} {f : Format Config} {s s' : Records}
  {call : Call} {accepted : Bool}

theorem Mutation.fewer {action : AuditAction} (h : Mutation c db call db' action id) :
    Fewer db db' := by
  cases h with
  | create h =>
    rcases create_keeps h with ⟨hnone, -⟩ | ⟨u, -, -, -, hkeeps⟩
    · cases hnone
    · exact hkeeps.sessions
  | update h => exact (update_keeps h).1.sessions
  | delete h => exact (delete_keeps h).1.sessions

/-- **Step**: the bounds stay. -/
theorem Effect.withinQuota (h : Effect c json f s call s' accepted)
    (hquota : WithinQuota s.accounts) : WithinQuota s'.accounts := by
  cases h with
  | refused => exact hquota
  | bootstrap h haction happended =>
    rcases bootstrap_keeps h with ⟨hnone, -⟩ | ⟨u, -, -, -, hkeeps⟩
    · cases hnone
    · exact hquota.fewer hkeeps.sessions
  | mutation h haction htarget haudit => exact hquota.fewer h.fewer
  | session h =>
    cases h with
    | login h =>
      obtain ⟨tx, hroom, hinsert⟩ := insertLogin_room hquota.total h
      exact hquota.insert hroom rfl hinsert
    | ssoLease h =>
      obtain ⟨id, hroom, hinsert⟩ := ssoLease_room h
      exact hquota.insert hroom rfl hinsert
    | logout => exact hquota.fewer logout_keeps.sessions
  | setAuditPolicy h => exact hquota
  | pruneAudit h => exact hquota
  | journal h => exact hquota
  | pruneConfigOperations h haction happended => exact hquota

/-- A login keeps the sessions of others that have not expired. -/
theorem Effect.login_kept {epoch : Nat}
    (h : Effect c json f s (.login now id epoch token) s' accepted)
    (hquota : WithinQuota s.accounts) {session : Session}
    (hs : s.accounts.sessions.lookup digest = some session) (hlive : now < session.expiresAt)
    (hother : session.userId ≠ id) : s'.accounts.sessions.lookup digest = some session := by
  cases h with
  | refused => exact hs
  | mutation h haction htarget haudit => cases h
  | session h =>
    cases h with
    | login h =>
      obtain ⟨tx, hroom, hinsert⟩ := insertLogin_room hquota.total h
      exact insertSession_kept hinsert (hroom.others digest session hs hlive hother)
  | journal h => cases h

/-- A lease keeps all sessions that have not expired. -/
theorem Effect.ssoLease_kept {username : Bytes}
    (h : Effect c json f s (.ssoLease now username token) s' accepted) {session : Session}
    (hs : s.accounts.sessions.lookup digest = some session) (hlive : now < session.expiresAt) :
    s'.accounts.sessions.lookup digest = some session := by
  cases h with
  | refused => exact hs
  | mutation h haction htarget haudit => cases h
  | session h =>
    cases h with
    | ssoLease h =>
      obtain ⟨id, -, hinsert⟩ := ssoLease_room h
      exact insertSession_kept hinsert (lookup_deleteExpired_iff.mpr ⟨hs, hlive⟩)
  | journal h => cases h

theorem withinQuota_empty (hempty : db.sessions = ∅) : WithinQuota db := by
  have hnone : ∀ digest s, db.sessions.lookup digest ≠ some s := by
    intro digest s hs
    rw [hempty, AList.lookup_empty] at hs
    cases hs
  have hsize : db.sessions.size = 0 := by
    rw [hempty]
    rfl
  refine ⟨by omega, fun id => ?_⟩
  have hle : (db.sessionsOf id).size ≤ db.sessions.size :=
    Table.size_le_of_lookup fun digest s hs => (lookup_sessionsOf.mp hs).1
  omega

/-- **Quota**: from a store without sessions, whatever is called at whatever times, both bounds
    hold. A login does not end the session of another account before it expires, a lease ends
    none, and if one of them is refused, no session goes. -/
theorem session_quota (c : Crypto) (json : AuditPolicy → Bytes) (f : Format Config)
    {s₀ s : Records} (hempty : s₀.accounts.sessions = ∅) {calls : List Call}
    (hrun : (records c json f).run s₀ calls = some s) :
    s.accounts.sessions.size ≤ maxSessions ∧
      (∀ id, (s.accounts.sessionsOf id).size ≤ maxSessionsPerUser) ∧
      (∀ now id epoch token digest session, s.accounts.sessions.lookup digest = some session →
        now < session.expiresAt → session.userId ≠ id →
        (s.next c json f (.login now id epoch token)).accounts.sessions.lookup digest =
          some session) ∧
      (∀ now username token digest session, s.accounts.sessions.lookup digest = some session →
        now < session.expiresAt →
        (s.next c json f (.ssoLease now username token)).accounts.sessions.lookup digest =
          some session) ∧
      ∀ call, (∀ s', s.perform c json f call ≠ .ok (s', true)) →
        (s.next c json f call).accounts.sessions = s.accounts.sessions := by
  -- one call: it fails and changes nothing, or has an effect within the bounds
  have hstep : ∀ (s : Records) call s', WithinQuota s.accounts →
      (records c json f).step s call = some s' → WithinQuota s'.accounts := by
    intro s call s' hquota hstep
    rw [← Option.some.inj hstep]
    rcases @next_cases _ c json f s call with ⟨e, -, hsame⟩ | ⟨accepted, -, heffect⟩
    · rw [hsame]
      exact hquota
    · exact heffect.withinQuota hquota
  have hquota : WithinQuota s.accounts :=
    Machine.run_invariant hstep (withinQuota_empty hempty) hrun
  refine ⟨hquota.total, hquota.own, ?_, ?_, ?_⟩
  · intro now id epoch token digest session hs hlive hother
    rcases @next_cases _ c json f s (.login now id epoch token) with
      ⟨e, -, hsame⟩ | ⟨accepted, -, heffect⟩
    · rw [hsame]
      exact hs
    · exact heffect.login_kept hquota hs hlive hother
  · intro now username token digest session hs hlive
    rcases @next_cases _ c json f s (.ssoLease now username token) with
      ⟨e, -, hsame⟩ | ⟨accepted, -, heffect⟩
    · rw [hsame]
      exact hs
    · exact heffect.ssoLease_kept hs hlive
  · intro call hrefused
    rw [next_eq_of_refused hrefused]

/-- A store with two accounts, and nobody logged in. -/
def rootStore : Records :=
  Records.created noteFormat ⟨(AList.singleton 1 rootAccount).insert 2
    { rootAccount with username := ascii "anna", role := .viewer }, ∅, 3⟩ 0 (List.replicate 32 97)

/-- One session, and the login of another account leaves it alone. -/
theorem session_quota_root :
    ∃ s, (records plainCrypto policyJson noteFormat).run rootStore
        [.login 1000 1 1 rootToken] = some s ∧
      s.accounts.sessions.size ≤ maxSessions ∧
      (s.next plainCrypto policyJson noteFormat
        (.login 2000 2 1 [1])).accounts.sessions.lookup (0 :: rootToken) =
        some ⟨1, 1000 + sessionSeconds, 1000⟩ ∧
      (s.next plainCrypto policyJson noteFormat
        (.login 2000 2 1 [1])).accounts.sessions.lookup [0, 1] =
        some ⟨2, 2000 + sessionSeconds, 2000⟩ := by
  obtain ⟨s, hs⟩ : ∃ s, (records plainCrypto policyJson noteFormat).run rootStore
      [.login 1000 1 1 rootToken] = some s := ⟨_, rfl⟩
  have hlookup : s.accounts.sessions.lookup (0 :: rootToken) =
      some ⟨1, 1000 + sessionSeconds, 1000⟩ := by
    obtain rfl := Option.some.inj hs
    decide +kernel
  have hsecond : (s.next plainCrypto policyJson noteFormat
      (.login 2000 2 1 [1])).accounts.sessions.lookup [0, 1] =
        some ⟨2, 2000 + sessionSeconds, 2000⟩ := by
    obtain rfl := Option.some.inj hs
    decide +kernel
  obtain ⟨htotal, -, hlogin, -⟩ := session_quota plainCrypto policyJson noteFormat rfl hs
  exact ⟨s, hs, htotal, hlogin 2000 2 1 [1] _ _ hlookup (by decide) (by decide), hsecond⟩

end AdminUsers
