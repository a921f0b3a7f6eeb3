import Hangang.AdminUsers.Store
import Hangang.Framework.Paging

/-! # The Audit History

    Account changes append a row, unless the policy of the store filters them: then they are
    only counted. Rows are numbered one after the other, and only a prefix of them can be
    pruned, so the retained ids are an interval. Everything else (their number, that a page is
    in order, that none is missing) is read off that interval. -/

open Bytes Except Paging

namespace AdminUsers

def auditCapacity : Nat := 100000

inductive AuditAction where
  | baseline
  | bootstrap
  | create
  | update
  | delete
  | prune
  | configOperationsPrune
  | policyChange
  deriving DecidableEq, Repr

inductive AuditActorKind where
  | system
  | account
  deriving DecidableEq, Repr

inductive AccountAuditAction where
  | create
  | update
  | delete
  deriving DecidableEq, Repr

inductive AuditFilterAction where
  | record
  | drop
  deriving DecidableEq, Repr

structure AuditFilterMatch where
  actions : List AccountAuditAction
  actorKinds : List AuditActorKind
  actorUserIds : List Nat
  targetUserIds : List Nat
  deriving DecidableEq, Repr

structure AuditFilterRule where
  id : Bytes
  action : AuditFilterAction
  criteria : AuditFilterMatch
  deriving DecidableEq, Repr

structure AuditPolicy where
  defaultAction : AuditFilterAction
  rules : List AuditFilterRule
  deriving DecidableEq, Repr

structure AuditUserState where
  role : Role
  enabled : Bool
  deriving DecidableEq, Repr

structure AuditRecord where
  id : Nat
  timeUnixMs : Nat
  action : AuditAction
  actorKind : AuditActorKind
  actorUserId : Option Nat
  targetUserId : Option Nat
  before : Option AuditUserState
  after : Option AuditUserState
  passwordChanged : Bool
  affectedCount : Nat
  throughId : Option Nat
  policyRevision : Nat
  policySnapshot : Option AuditPolicy
  deriving DecidableEq, Repr

/-- `admin_audit` in the order of its ids, and `admin_audit_meta`. -/
structure Audit where
  rows : List AuditRecord
  nextAuditId : Nat
  storedRecords : Nat
  prunedThrough : Nat
  policyRevision : Nat
  policy : AuditPolicy
  filteredTotal : Nat
  lastChangedAt : Nat

/-- Who acts: the system, or an account. -/
structure Actor where
  kind : AuditActorKind
  userId : Option Nat
  deriving DecidableEq, Repr

/-! ## Policies -/

def AuditPolicy.default : AuditPolicy := ⟨.record, []⟩

/-- The loop of `AuditPolicy::validate` over the rules, with the ids seen so far. -/
def validateRules : List Bytes → List AuditFilterRule → Except String Unit
  | _, [] => .ok ()
  | ids, rule :: rules => do
    ensure (rule.id ≠ [] ∧ rule.id.length ≤ 64 ∧
      (rule.id.all fun b => isAsciiAlphanumeric b || b == 46 || b == 95 || b == 45) ∧ rule.id ∉ ids)
      "invalid or duplicate account audit rule ID"
    let m := rule.criteria
    ensure (m.actions.length ≤ 64 ∧ m.actorKinds.length ≤ 64 ∧ m.actorUserIds.length ≤ 64 ∧
      m.targetUserIds.length ≤ 64) "account audit rule match list exceeds capacity"
    ensure (∀ id ∈ m.actorUserIds ++ m.targetUserIds, 1 ≤ id ∧ id ≤ maxSafeId)
      "invalid account audit user ID"
    ensure (m.actions.Nodup ∧ m.actorKinds.Nodup ∧ m.actorUserIds.Nodup ∧ m.targetUserIds.Nodup)
      "duplicate account audit match value"
    validateRules (rule.id :: ids) rules

/-- `AuditPolicy::validate`; `json` is the text of `serde_json`. -/
def AuditPolicy.validate (json : AuditPolicy → Bytes) (policy : AuditPolicy) :
    Except String Unit := do
  ensure (policy.rules.length ≤ 64) "too many account audit rules"
  validateRules [] policy.rules
  ensure ((json policy).length ≤ 65536) "account audit policy too large"

def AuditAction.accountAction : AuditAction → Option AccountAuditAction
  | .create => some .create
  | .update => some .update
  | .delete => some .delete
  | _ => none

def AuditFilterMatch.selects (m : AuditFilterMatch) (action : AccountAuditAction)
    (record : AuditRecord) : Bool :=
  (m.actions.isEmpty || action ∈ m.actions) &&
    (m.actorKinds.isEmpty || record.actorKind ∈ m.actorKinds) &&
    (m.actorUserIds.isEmpty || record.actorUserId.any fun id => id ∈ m.actorUserIds) &&
    (m.targetUserIds.isEmpty || record.targetUserId.any fun id => id ∈ m.targetUserIds)

/-- `AuditPolicy::decision`: the first rule that selects the record. -/
def AuditPolicy.decision (policy : AuditPolicy) (record : AuditRecord) : AuditFilterAction :=
  match record.action.accountAction with
  | none => .record
  | some action =>
    ((policy.rules.find? fun rule => rule.criteria.selects action record).map
      AuditFilterRule.action).getD policy.defaultAction

/-! ## Records -/

def auditRecord (timeUnixMs : Nat) (action : AuditAction) (actor : Actor)
    (targetUserId : Option Nat) (before after : Option AuditUserState) (passwordChanged : Bool)
    (affectedCount : Nat) (throughId : Option Nat) : AuditRecord :=
  ⟨0, timeUnixMs, action, actor.kind, actor.userId, targetUserId, before, after, passwordChanged,
    affectedCount, throughId, 0, none⟩

def validId (id : Nat) : Bool := 1 ≤ id && id ≤ maxSafeId

section store

variable (json : AuditPolicy → Bytes)

/-- The fields that belong to each action. -/
def AuditRecord.validAction (record : AuditRecord) : Bool :=
  match record.action with
  | .baseline => record.actorKind = .system && record.targetUserId.isNone && record.before.isNone &&
      record.after.isNone && !record.passwordChanged && record.throughId.isNone
  | .bootstrap => record.actorKind = .system && record.targetUserId.isSome &&
      record.before.isNone && record.after = some ⟨.admin, true⟩ && record.passwordChanged &&
      record.affectedCount = 1 && record.throughId.isNone
  | .create => record.targetUserId.isSome && record.before.isNone &&
      (record.after.any AuditUserState.enabled) && record.passwordChanged &&
      record.affectedCount = 1 && record.throughId.isNone
  | .update => record.targetUserId.isSome && record.before.isSome && record.after.isSome &&
      record.affectedCount = 1 && record.throughId.isNone
  | .delete => record.targetUserId.isSome && record.before.isSome && record.after.isNone &&
      !record.passwordChanged && record.affectedCount = 1 && record.throughId.isNone
  | .prune => record.targetUserId.isNone && record.before.isNone && record.after.isNone &&
      !record.passwordChanged && 0 < record.affectedCount &&
      (record.throughId.any fun through => through < record.id)
  | .configOperationsPrune => record.targetUserId.isNone && record.before.isNone &&
      record.after.isNone && !record.passwordChanged && 0 < record.affectedCount &&
      record.throughId.isSome
  | .policyChange => record.targetUserId.isNone && record.before.isNone && record.after.isNone &&
      !record.passwordChanged && record.affectedCount = 0 && record.throughId.isNone &&
      0 < record.policyRevision && (record.policySnapshot.any fun p => (p.validate json).isOk)

/-- `valid_audit_record`. The checks of the table say nothing more. -/
def validAuditRecord (record : AuditRecord) : Bool :=
  validId record.id &&
    (record.timeUnixMs ≤ maxSafeId && record.affectedCount ≤ maxSafeId &&
      record.policyRevision ≤ maxSafeId &&
      (record.action = .policyChange || record.policySnapshot.isNone) &&
      record.actorUserId.all validId && record.targetUserId.all validId &&
      record.throughId.all validId &&
      (match record.actorKind with
        | .system => record.actorUserId.isNone
        | .account => record.actorUserId.isSome) &&
      record.validAction json)

/-- `policy_state`. -/
def policyState (audit : Audit) : Except String Unit := do
  ensure (audit.policyRevision ≤ maxSafeId ∧ audit.filteredTotal ≤ maxSafeId ∧
    audit.lastChangedAt ≤ maxSafeId ∧ (json audit.policy).length ≤ 65536)
    "invalid stored account audit policy metadata"
  audit.policy.validate json

/-- `append_audit`. -/
def appendAudit (audit : Audit) (record : AuditRecord) : Except String (Audit × AuditRecord) := do
  ensure (audit.storedRecords < auditCapacity) "administrator audit capacity exhausted"
  ensure (validId audit.nextAuditId) "administrator audit capacity exhausted"
  policyState json audit
  let record :=
    { record with
      id := audit.nextAuditId
      policyRevision := audit.policyRevision }
  ensure (validAuditRecord json record) "invalid administrator audit event"
  ensure (record.id ∉ audit.rows.map AuditRecord.id) "UNIQUE constraint failed: admin_audit.id"
  let audit :=
    { audit with
      rows := audit.rows ++ [record]
      nextAuditId := audit.nextAuditId + 1
      storedRecords := audit.storedRecords + 1 }
  .ok (audit, record)

/-- `append_account_audit`. -/
def appendAccountAudit (audit : Audit) (record : AuditRecord) : Except String Audit := do
  policyState json audit
  if audit.policy.decision record = .drop then do
    ensure (audit.filteredTotal < maxSafeId) "account audit filtered counter exhausted"
    .ok { audit with filteredTotal := audit.filteredTotal + 1 }
  else do
    let (audit, _) ← appendAudit json audit record
    .ok audit

/-- `set_audit_policy`, by an actor that may; `nowMs` is read for the change and again for
    its record. -/
def setAuditPolicy (audit : Audit) (actor : Actor) (nowMs timeUnixMs expectedRevision : Nat)
    (policy : AuditPolicy) : Except String Audit := do
  policyState json audit
  ensure (audit.policyRevision = expectedRevision)
    "administrator audit revision or prune range conflicted"
  if audit.policy = policy then .ok audit
  else do
    ensure (audit.policyRevision < maxSafeId) "account audit policy revision exhausted"
    ensure (nowMs ≤ maxSafeId) "CHECK constraint failed: last_changed_at_unix_ms"
    let audit :=
      { audit with
        policyRevision := audit.policyRevision + 1
        policy := policy
        lastChangedAt := nowMs }
    let record := auditRecord timeUnixMs .policyChange actor none none none false 0 none
    let (audit, _) ← appendAudit json audit { record with policySnapshot := some policy }
    policyState json audit
    .ok audit

/-- `prune_audit`, by an actor that may. -/
def pruneAudit (audit : Audit) (actor : Actor) (nowMs throughId expectedLatestId : Nat) :
    Except String Audit := do
  ensure (expectedLatestId = audit.nextAuditId - 1 ∧ audit.prunedThrough < throughId ∧
    throughId ≤ audit.nextAuditId - 1) "administrator audit revision or prune range conflicted"
  ensure (audit.nextAuditId ≤ maxSafeId) "administrator audit capacity exhausted"
  let kept := audit.rows.filter fun row => throughId < row.id
  let deleted := audit.rows.length - kept.length
  ensure (deleted ≠ 0) "administrator audit revision or prune range conflicted"
  let audit :=
    { audit with
      rows := kept
      prunedThrough := throughId
      storedRecords := audit.storedRecords - deleted }
  let (audit, _) ← appendAudit json audit
    (auditRecord nowMs .prune actor none none none false deleted (some throughId))
  .ok audit

structure AuditPage where
  policyRevision : Nat
  filteredTotal : Nat
  coverageFiltered : Bool
  records : List AuditRecord
  nextAfter : Nat
  oldestId : Option Nat
  latestId : Nat
  prunedThrough : Nat
  truncated : Bool
  storedRecords : Nat
  writesAvailable : Bool
  hasMore : Bool
  deriving DecidableEq, Repr

/-- `read_audit_record`. -/
def readAuditRecord (record : AuditRecord) : Except String AuditRecord := do
  ensure (validAuditRecord json record) "Query is not read-only"
  .ok record

/-- `audit_page`, for an actor that may. -/
def auditPage (audit : Audit) (after limit : Nat) : Except String AuditPage := do
  ensure (after ≤ maxSafeId ∧ 1 ≤ limit ∧ limit ≤ 100) "invalid audit page bounds"
  policyState json audit
  let rows := (audit.rows.filter fun row => after < row.id).mergeSort fun a b => a.id ≤ b.id
  let records ← (rows.take (limit + 1)).mapM (readAuditRecord json)
  ensure (∀ record ∈ records, audit.prunedThrough < record.id)
    "administrator audit history crosses pruned range"
  let page := records.take limit
  .ok
    { policyRevision := audit.policyRevision
      filteredTotal := audit.filteredTotal
      coverageFiltered := 0 < audit.filteredTotal
      records := page
      nextAfter := cursor AuditRecord.id after page
      oldestId := (audit.rows.map AuditRecord.id).min?
      latestId := audit.nextAuditId - 1
      prunedThrough := audit.prunedThrough
      truncated := after < audit.prunedThrough
      storedRecords := audit.storedRecords
      writesAvailable := audit.storedRecords < auditCapacity && audit.nextAuditId ≤ maxSafeId
      hasMore := limit < records.length }

end store

/-- The history of a new store, with the accounts that it found. -/
def Audit.initial (nowMs existing : Nat) : Audit where
  rows := [{ auditRecord nowMs .baseline ⟨.system, none⟩ none none none false existing none with
    id := 1 }]
  nextAuditId := 2
  storedRecords := 1
  prunedThrough := 0
  policyRevision := 0
  policy := AuditPolicy.default
  filteredTotal := 0
  lastChangedAt := 0

/-! ## What each call writes -/

variable {json : AuditPolicy → Bytes} {audit audit' : Audit} {actor : Actor}

/-- A row was appended. -/
structure Appended (json : AuditPolicy → Bytes) (audit audit' : Audit) (record row : AuditRecord) :
    Prop where
  policy : policyState json audit = .ok ()
  free : audit.storedRecords < auditCapacity
  row_eq : row =
    { record with
      id := audit.nextAuditId
      policyRevision := audit.policyRevision }
  valid : validAuditRecord json row = true
  result : audit' =
    { audit with
      rows := audit.rows ++ [row]
      nextAuditId := audit.nextAuditId + 1
      storedRecords := audit.storedRecords + 1 }

variable {record : AuditRecord} {nowMs throughId : Nat}

theorem appendAudit_eq_ok {row : AuditRecord}
    (h : appendAudit json audit record = .ok (audit', row)) :
    Appended json audit audit' record row := by
  simp only [appendAudit, bind_eq_ok] at h
  obtain ⟨_, hfree, _, -, _, hpolicy, _, hvalid, _, -, h⟩ := h
  obtain ⟨rfl, rfl⟩ := ok_pair_inj h
  exact ⟨hpolicy, ensure_eq_ok.mp hfree, rfl, ensure_eq_ok.mp hvalid, rfl⟩

/-- A change was counted, without a row. -/
structure Dropped (audit audit' : Audit) (record : AuditRecord) : Prop where
  decision : audit.policy.decision record = .drop
  free : audit.filteredTotal < maxSafeId
  result : audit' = { audit with filteredTotal := audit.filteredTotal + 1 }

theorem appendAccountAudit_eq_ok (h : appendAccountAudit json audit record = .ok audit') :
    Dropped audit audit' record ∨ ∃ row, Appended json audit audit' record row := by
  simp only [appendAccountAudit, bind_eq_ok] at h
  obtain ⟨_, -, h⟩ := h
  split at h
  next hdrop =>
    obtain ⟨_, hfree, h⟩ := bind_eq_ok.mp h
    exact .inl ⟨hdrop, ensure_eq_ok.mp hfree, (Except.ok.inj h).symm⟩
  next =>
    obtain ⟨⟨appended, row⟩, happend, h⟩ := bind_eq_ok.mp h
    obtain rfl := Except.ok.inj h
    exact .inr ⟨row, appendAudit_eq_ok happend⟩

/-- The policy before its change is recorded. -/
def Audit.withPolicy (audit : Audit) (nowMs : Nat) (policy : AuditPolicy) : Audit :=
  { audit with
    policyRevision := audit.policyRevision + 1
    policy := policy
    lastChangedAt := nowMs }

theorem setAuditPolicy_eq_ok {timeUnixMs expectedRevision : Nat} {policy : AuditPolicy}
    (h : setAuditPolicy json audit actor nowMs timeUnixMs expectedRevision policy = .ok audit') :
    audit' = audit ∨ ∃ record row, record.action = .policyChange ∧
      Appended json (audit.withPolicy nowMs policy) audit' record row := by
  simp only [setAuditPolicy, bind_eq_ok] at h
  obtain ⟨_, -, _, -, h⟩ := h
  split at h
  · exact .inl (Except.ok.inj h).symm
  · simp only [bind_eq_ok] at h
    obtain ⟨_, -, _, -, ⟨appended, row⟩, happend, _, -, h⟩ := h
    obtain rfl := Except.ok.inj h
    exact .inr ⟨_, row, rfl, appendAudit_eq_ok happend⟩

/-- The history without the rows up to an id. -/
def Audit.without (audit : Audit) (throughId : Nat) : Audit :=
  { audit with
    rows := audit.rows.filter fun row => throughId < row.id
    prunedThrough := throughId
    storedRecords := audit.storedRecords -
      (audit.rows.length - (audit.rows.filter fun row => throughId < row.id).length) }

theorem pruneAudit_eq_ok {expectedLatestId : Nat}
    (h : pruneAudit json audit actor nowMs throughId expectedLatestId = .ok audit') :
    audit.prunedThrough < throughId ∧ throughId ≤ audit.nextAuditId - 1 ∧
      ∃ record row, record.action = .prune ∧
        Appended json (audit.without throughId) audit' record row := by
  simp only [pruneAudit, bind_eq_ok] at h
  obtain ⟨_, hrange, _, -, _, -, ⟨appended, row⟩, happend, h⟩ := h
  obtain rfl := Except.ok.inj h
  obtain ⟨-, hlt, hle⟩ := ensure_eq_ok.mp hrange
  exact ⟨hlt, hle, _, row, rfl, appendAudit_eq_ok happend⟩

/-! ## Retained rows -/

/-- The retained ids are those above the pruned mark and below the next id. -/
structure Audit.Sound (json : AuditPolicy → Bytes) (audit : Audit) : Prop where
  ids : audit.rows.map AuditRecord.id = List.range' (audit.prunedThrough + 1) audit.storedRecords
  next : audit.nextAuditId = audit.prunedThrough + audit.storedRecords + 1
  capacity : audit.storedRecords ≤ auditCapacity
  valid : ∀ row ∈ audit.rows, validAuditRecord json row = true
  policy : policyState json audit = .ok ()

theorem Audit.Sound.length_rows (h : audit.Sound json) :
    audit.rows.length = audit.storedRecords := by
  have hlength := congrArg List.length h.ids
  rwa [List.length_map, List.length_range'] at hlength

/-- **Append**: the new row has the next id. -/
theorem Appended.sound {row : AuditRecord} (happended : Appended json audit audit' record row)
    (hids : audit.rows.map AuditRecord.id =
      List.range' (audit.prunedThrough + 1) audit.storedRecords)
    (hnext : audit.nextAuditId = audit.prunedThrough + audit.storedRecords + 1)
    (hvalid : ∀ row ∈ audit.rows, validAuditRecord json row = true) : audit'.Sound json := by
  obtain ⟨hpolicy, hfree, hrow, hrowValid, rfl⟩ := happended
  refine ⟨?_, ?_, hfree, ?_, hpolicy⟩
  · have hnextId : row.id = audit.nextAuditId := by rw [hrow]
    have hid : row.id = audit.prunedThrough + 1 + audit.storedRecords := by omega
    rw [List.map_append, hids, List.range'_concat, Nat.one_mul, List.map_singleton, hid]
  · show audit.nextAuditId + 1 = audit.prunedThrough + (audit.storedRecords + 1) + 1
    omega
  · intro other hother
    rcases List.mem_append.mp hother with hold | hnew
    · exact hvalid other hold
    · rw [List.mem_singleton.mp hnew]
      exact hrowValid

/-- An interval without its first numbers. -/
theorem filter_range' {start len through : Nat} (hlow : start ≤ through + 1)
    (hhigh : through + 1 ≤ start + len) :
    (List.range' start len).filter (fun id => through < id) =
      List.range' (through + 1) (start + len - (through + 1)) := by
  have hsplit : List.range' start len =
      List.range' start (through + 1 - start) ++
        List.range' (through + 1) (start + len - (through + 1)) := by
    have happend := @List.range'_append start (through + 1 - start)
      (start + len - (through + 1)) 1
    have hstart : start + 1 * (through + 1 - start) = through + 1 := by omega
    have hlen : through + 1 - start + (start + len - (through + 1)) = len := by omega
    rw [hstart, hlen] at happend
    exact happend.symm
  rw [hsplit, List.filter_append, List.filter_eq_nil_iff.mpr, List.filter_eq_self.mpr,
    List.nil_append]
  · intro id hid
    have hbounds := List.mem_range'_1.mp hid
    exact decide_eq_true (by omega)
  · intro id hid hlt
    have hbounds := List.mem_range'_1.mp hid
    have hlt := of_decide_eq_true hlt
    omega

/-- **Prune**: what is left is still an interval. -/
theorem Audit.Sound.without (h : audit.Sound json) (hlow : audit.prunedThrough < throughId)
    (hhigh : throughId ≤ audit.nextAuditId - 1) :
    (audit.without throughId).rows.map AuditRecord.id =
        List.range' (throughId + 1) (audit.without throughId).storedRecords ∧
      (audit.without throughId).nextAuditId =
        throughId + (audit.without throughId).storedRecords + 1 := by
  have hnext := h.next
  have hids : (audit.rows.filter fun row => throughId < row.id).map AuditRecord.id =
      List.range' (throughId + 1) (audit.nextAuditId - (throughId + 1)) := by
    have hfilter : (audit.rows.filter fun row => throughId < row.id).map AuditRecord.id =
        (audit.rows.map AuditRecord.id).filter fun id => throughId < id := by
      rw [List.filter_map]
      rfl
    rw [hfilter, h.ids, filter_range' (by omega) (by omega), hnext]
    congr 1
    omega
  have hlength := h.length_rows
  have hkept : (audit.rows.filter fun row => throughId < row.id).length =
      audit.nextAuditId - (throughId + 1) := by
    have hlen := congrArg List.length hids
    rwa [List.length_map, List.length_range'] at hlen
  have hstored : (audit.without throughId).storedRecords = audit.nextAuditId - (throughId + 1) := by
    show audit.storedRecords - (audit.rows.length - _) = _
    rw [hkept, hlength]
    omega
  rw [hstored]
  refine ⟨hids, ?_⟩
  show audit.nextAuditId = _
  omega

theorem Dropped.sound (h : audit.Sound json) (hdropped : Dropped audit audit' record) :
    audit'.Sound json := by
  obtain ⟨-, hfree, rfl⟩ := hdropped
  obtain ⟨_, hbounds, hvalidate⟩ := bind_eq_ok.mp h.policy
  obtain ⟨hrevision, -, hchanged, hjson⟩ := ensure_eq_ok.mp hbounds
  refine ⟨h.ids, h.next, h.capacity, h.valid, ?_⟩
  exact bind_eq_ok.mpr ⟨(), ensure_eq_ok.mpr ⟨hrevision, hfree, hchanged, hjson⟩, hvalidate⟩

theorem appendAccountAudit_sound (h : audit.Sound json)
    (happend : appendAccountAudit json audit record = .ok audit') : audit'.Sound json := by
  rcases appendAccountAudit_eq_ok happend with hdropped | ⟨row, happended⟩
  · exact hdropped.sound h
  · exact happended.sound h.ids h.next h.valid

theorem setAuditPolicy_sound (h : audit.Sound json) {timeUnixMs expectedRevision : Nat}
    {policy : AuditPolicy}
    (hset : setAuditPolicy json audit actor nowMs timeUnixMs expectedRevision policy = .ok audit') :
    audit'.Sound json := by
  rcases setAuditPolicy_eq_ok hset with rfl | ⟨record, row, -, happended⟩
  · exact h
  · exact happended.sound h.ids h.next h.valid

theorem pruneAudit_sound (h : audit.Sound json) {expectedLatestId : Nat}
    (hprune : pruneAudit json audit actor nowMs throughId expectedLatestId = .ok audit') :
    audit'.Sound json := by
  obtain ⟨hlow, hhigh, record, row, -, happended⟩ := pruneAudit_eq_ok hprune
  obtain ⟨hids, hnext⟩ := h.without hlow hhigh
  exact happended.sound hids hnext fun row hrow => h.valid row (List.mem_of_mem_filter hrow)

theorem initial_sound (json : AuditPolicy → Bytes) {existing : Nat}
    (hjson : (json AuditPolicy.default).length ≤ 65536) (hnow : nowMs ≤ maxSafeId)
    (hexisting : existing ≤ maxSafeId) : (Audit.initial nowMs existing).Sound json := by
  have hcapacity : 1 ≤ auditCapacity := by decide
  have hfirst : validId 1 = true := by decide
  refine ⟨rfl, rfl, hcapacity, ?_, ?_⟩
  · intro row hrow
    rw [List.mem_singleton.mp hrow]
    simp [validAuditRecord, auditRecord, AuditRecord.validAction, hfirst, hnow, hexisting]
  · have hbounds : ensure ((0 : Nat) ≤ maxSafeId ∧ (0 : Nat) ≤ maxSafeId ∧ (0 : Nat) ≤ maxSafeId ∧
        (json AuditPolicy.default).length ≤ 65536)
        "invalid stored account audit policy metadata" = .ok () :=
      ensure_eq_ok.mpr ⟨Nat.zero_le _, Nat.zero_le _, Nat.zero_le _, hjson⟩
    refine bind_eq_ok.mpr ⟨(), hbounds, ?_⟩
    exact bind_eq_ok.mpr ⟨(), rfl, bind_eq_ok.mpr ⟨(), rfl, ensure_eq_ok.mpr hjson⟩⟩

/-! ## Pages -/

theorem Audit.Sound.pairwise (h : audit.Sound json) :
    audit.rows.Pairwise fun a b => a.id < b.id := by
  have hsorted := @List.pairwise_lt_range' (audit.prunedThrough + 1) audit.storedRecords 1
  rw [← h.ids, List.pairwise_map] at hsorted
  exact hsorted

/-- A row is retained if its id is. -/
theorem Audit.Sound.exists_row (h : audit.Sound json) (id : Nat) :
    (∃ row ∈ audit.rows, row.id = id) ↔ audit.prunedThrough < id ∧ id < audit.nextAuditId := by
  have hnext := h.next
  have hmem : (∃ row ∈ audit.rows, row.id = id) ↔ id ∈ audit.rows.map AuditRecord.id :=
    List.mem_map.symm
  rw [hmem, h.ids, List.mem_range'_1]
  omega

/-- **One page**: the first rows behind the cursor, and whether there are more. -/
theorem Audit.Sound.auditPage_eq (h : audit.Sound json) {after limit : Nat}
    (hafter : after ≤ maxSafeId) (hlimit : 1 ≤ limit ∧ limit ≤ 100) :
    ∃ page, auditPage json audit after limit = .ok page ∧
      page.records = (behind AuditRecord.id after audit.rows).take limit ∧
      page.nextAfter = cursor AuditRecord.id after
        ((behind AuditRecord.id after audit.rows).take limit) ∧
      page.hasMore = decide (limit < (behind AuditRecord.id after audit.rows).length) := by
  have hsort : ((audit.rows.filter fun row => after < row.id).mergeSort fun a b => a.id ≤ b.id) =
      behind AuditRecord.id after audit.rows := mergeSort_behind h.pairwise
  have hrows : ∀ row ∈ (behind AuditRecord.id after audit.rows).take (limit + 1),
      row ∈ audit.rows := fun row hrow => List.mem_of_mem_filter (List.mem_of_mem_take hrow)
  generalize behind AuditRecord.id after audit.rows = left at hsort hrows ⊢
  have hread : (left.take (limit + 1)).mapM (readAuditRecord json) = .ok (left.take (limit + 1)) :=
    mapM_eq_self fun row hrow =>
      bind_eq_ok.mpr ⟨(), ensure_eq_ok.mpr (h.valid row (hrows row hrow)), rfl⟩
  have habove : ∀ row ∈ left.take (limit + 1), audit.prunedThrough < row.id := fun row hrow =>
    ((h.exists_row row.id).mp ⟨row, hrows row hrow, rfl⟩).1
  have hbounds : ensure (after ≤ maxSafeId ∧ 1 ≤ limit ∧ limit ≤ 100)
      "invalid audit page bounds" = .ok () := ensure_eq_ok.mpr ⟨hafter, hlimit⟩
  unfold auditPage
  rw [hbounds, ok_bind, h.policy, ok_bind]
  dsimp only
  rw [hsort, hread, ok_bind, ensure_of habove, ok_bind]
  have htake : (left.take (limit + 1)).take limit = left.take limit := by
    rw [List.take_take, Nat.min_eq_left (Nat.le_succ limit)]
  have hmore : decide (limit < (left.take (limit + 1)).length) = decide (limit < left.length) := by
    rw [List.length_take, decide_eq_decide]
    omega
  exact ⟨_, rfl, htake, congrArg (cursor AuditRecord.id after) htake, hmore⟩

end AdminUsers
