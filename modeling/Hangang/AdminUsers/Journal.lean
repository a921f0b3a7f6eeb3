import Hangang.AdminUsers.Audit
import Hangang.ConfigStore.Document

/-! # The Journal of Configuration Operations

    An operation is accepted, and finished once. If its receipt is kept by the shared store,
    the journal prepares the release of that receipt under an identity of its own and notes the
    acknowledgement. Only what is finished, and released where it has to be, can be pruned. The
    counter and the digest of the retained ids are written along with the rows. -/

open Bytes Except ConfigStore

namespace AdminUsers

def configOperationCapacity : Nat := 10000

inductive ConfigStoreKind where
  | localFile
  | sharedStore
  deriving DecidableEq, Repr

inductive ConfigOperationState where
  | accepted
  | candidateActivated
  | conflict
  | failed
  | indeterminate
  deriving DecidableEq, Repr

/-- The states of release work. -/
inductive ConfigReleaseState where
  | notApplicable
  /-- `Protected`. -/
  | unreleased
  | pending
  | acknowledged
  deriving DecidableEq, Repr

structure ConfigReleaseWork where
  releaseId : Bytes
  receipt : SequencedCommitReceipt
  state : ConfigReleaseState
  deriving DecidableEq, Repr

structure ConfigAcceptRequest where
  receiptVersion : Nat
  storeKind : ConfigStoreKind
  authorityEpoch : Option Bytes
  expectedRevision : Nat
  candidateSha256 : Bytes
  deriving DecidableEq, Repr

/-- A row of `admin_config_operations`. -/
structure OperationRow where
  id : Nat
  operationId : Bytes
  receiptVersion : Nat
  authorityId : Bytes
  actor : Actor
  acceptedAt : Nat
  expectedRevision : Nat
  candidateSha256 : Bytes
  storeKind : ConfigStoreKind
  authorityEpoch : Option Bytes
  state : ConfigOperationState
  finishedAt : Option Nat
  deriving DecidableEq, Repr

/-- A row of `admin_config_releases`, without its key, the operation; it is acknowledged or
    else pending. -/
structure ReleaseRow where
  releaseId : Bytes
  authorityId : Bytes
  acceptanceSeq : Nat
  epoch : Bytes
  revision : Nat
  candidateSha256 : Bytes
  preparedAt : Nat
  acknowledgedAt : Option Nat
  deriving DecidableEq, Repr

structure ConfigOperation extends OperationRow where
  releaseState : ConfigReleaseState
  releaseId : Option Bytes
  deriving DecidableEq, Repr

/-- The rows in the order of their ids, and `admin_config_operation_meta`. -/
structure Journal where
  authorityId : Bytes
  operations : List OperationRow
  releases : Table Bytes ReleaseRow
  nextId : Nat
  storedRecords : Nat
  historyRevision : Nat
  prunedThrough : Nat
  retainedIdsSha256 : Bytes

/-! ## Reading -/

def receiptMatchesOperation (operation : OperationRow) (receipt : SequencedCommitReceipt) : Bool :=
  operation.receiptVersion = 2 && operation.storeKind = .sharedStore &&
    operation.state = .candidateActivated && operation.authorityId = receipt.stamp.authorityId &&
    operation.id = receipt.stamp.acceptanceSeq &&
    operation.operationId = receipt.stamp.operationId &&
    operation.candidateSha256 = receipt.stamp.candidateSha256 &&
    operation.authorityEpoch = some receipt.epoch &&
    operation.expectedRevision + 1 = receipt.revision && receipt.revision ≤ maxSafeId &&
    validHex receipt.epoch 32

def releaseWorkFromOperation (operation : ConfigOperation) : Option ConfigReleaseWork := do
  let releaseId ← operation.releaseId
  let epoch ← operation.authorityEpoch
  some
    { releaseId := releaseId
      receipt := ⟨epoch, operation.expectedRevision + 1, operation.authorityId, operation.id,
        operation.operationId, operation.candidateSha256⟩
      state := operation.releaseState }

/-- The receipt that the columns of a release spell. -/
def ReleaseRow.receipt (release : ReleaseRow) (operationId : Bytes) : SequencedCommitReceipt :=
  ⟨release.epoch, release.revision, release.authorityId, release.acceptanceSeq, operationId,
    release.candidateSha256⟩

def ReleaseRow.state (release : ReleaseRow) : ConfigReleaseState :=
  if release.acknowledgedAt.isSome then .acknowledged else .pending

section journal

variable {Config : Type} (f : Format Config)

/-- Version 2 has a shared store, an epoch and the identity of its sequence. -/
def ConfigOperation.validVersion (record : ConfigOperation) : Bool :=
  record.receiptVersion = 1 ||
    record.receiptVersion = 2 && record.storeKind = .sharedStore && record.authorityEpoch.isSome &&
      (canonicalOperationId f record.authorityId record.id).toOption = some record.operationId

/-- Release work belongs to version 2 and to an activated candidate. -/
def ConfigOperation.validRelease (record : ConfigOperation) : Bool :=
  match record.releaseState, record.releaseId with
  | .notApplicable, none => record.receiptVersion = 1
  | .unreleased, none => record.receiptVersion = 2
  | .pending, some id | .acknowledged, some id =>
    record.receiptVersion = 2 && record.state = .candidateActivated && validHex id 32
  | _, _ => false

/-- `valid_config_operation`. -/
def validConfigOperation (record : ConfigOperation) : Bool :=
  validId record.id && validHex record.operationId 32 && validHex record.authorityId 32 &&
    (match record.actor.kind with
      | .system => record.actor.userId.isNone
      | .account => record.actor.userId.any validId) &&
    record.acceptedAt ≤ maxSafeId && record.expectedRevision ≤ maxSafeId &&
    validHex record.candidateSha256 64 &&
    (record.authorityEpoch.all fun epoch => validHex epoch 32) &&
    (match record.state with
      | .accepted => record.finishedAt.isNone
      | _ => record.finishedAt.any fun time => time ≤ maxSafeId) &&
    record.validVersion f && record.validRelease

/-- The release columns of a row of the join. -/
def OperationRow.joined (row : OperationRow) (release : Option ReleaseRow) : ConfigOperation :=
  match release with
  | none => ⟨row, if row.receiptVersion = 1 then .notApplicable else .unreleased, none⟩
  | some release => ⟨row, release.state, some release.releaseId⟩

/-- `read_config_operation`. -/
def readConfigOperation (row : OperationRow) (release : Option ReleaseRow) :
    Except String ConfigOperation := do
  let record := row.joined release
  ensure (row.receiptVersion < 256) "Query is not read-only"
  ensure (release.isSome ∨ row.receiptVersion = 1 ∨ row.receiptVersion = 2) "Query is not read-only"
  ensure (validConfigOperation f record ∧
    (∀ r ∈ release, r.preparedAt ≤ maxSafeId ∧ (∀ time ∈ r.acknowledgedAt, time ≤ maxSafeId) ∧
      receiptMatchesOperation row (r.receipt row.operationId))) "Query is not read-only"
  .ok record

/-- `find_config_operation`. -/
def findConfigOperation (journal : Journal) (operationId : Bytes) :
    Except String (Option ConfigOperation) :=
  match journal.operations.find? fun row => row.operationId = operationId with
  | none => .ok none
  | some row => do
    let operation ← readConfigOperation f row (journal.releases.lookup operationId)
    .ok (some operation)

/-- The loop of `scan_config_ids`, with the count and the id before. -/
def scanIds : Nat → Nat → List Nat → Except String Unit
  | _, _, [] => .ok ()
  | count, previous, id :: ids => do
    ensure (count + 1 ≤ configOperationCapacity) "local config operation history exceeds capacity"
    ensure (validId id ∧ previous < id) "invalid local config operation ID ordering"
    scanIds (count + 1) id ids

/-- `scan_config_ids`: the ids whose digest is taken. -/
def scanConfigIds (journal : Journal) : Except String (List Nat) := do
  let ids := ((journal.operations.map OperationRow.id).mergeSort fun a b => a ≤ b).take
    (configOperationCapacity + 1)
  scanIds 0 0 ids
  .ok ids

/-- `hex_digest` of the ids. -/
def idsSha256 (ids : List Nat) : Bytes := f.sha256Hex (ids.flatMap (beBytes 8))

def verifyConfigHistory (journal : Journal) : Except String (List Nat) := do
  let ids ← scanConfigIds journal
  ensure (ids.length = journal.storedRecords ∧ ids.length ≤ configOperationCapacity ∧
    ids.getLastD 0 < journal.nextId ∧ (∀ id ∈ ids.head?, 1 ≤ id ∧ id < journal.nextId) ∧
    idsSha256 f ids = journal.retainedIdsSha256) "local config operation history inconsistent"
  .ok ids

/-! ## Calls -/

/-- What `accept_config` checks before it opens the store. -/
def ConfigAcceptRequest.validate (request : ConfigAcceptRequest) : Except String Unit := do
  ensure (request.receiptVersion = 1 ∨ request.receiptVersion = 2)
    "unsupported local config operation receipt version"
  ensure (request.receiptVersion = 1 ∨
    (request.storeKind = .sharedStore ∧ request.authorityEpoch.isSome))
    "version 2 receipts require a shared store and authority epoch"
  ensure (request.expectedRevision ≤ maxSafeId)
    "configuration revision exceeds safe local audit range"
  ensure (validHex request.candidateSha256 64)
    "candidate SHA-256 needs 64 lowercase hexadecimal characters"
  ensure (∀ epoch ∈ request.authorityEpoch, validHex epoch 32)
    "authority epoch needs 32 lowercase hexadecimal characters"

/-- The identity of an operation: random, or canonical for version 2. -/
def newOperationId (journal : Journal) (receiptVersion : Nat) (randomId : Bytes) :
    Except String Bytes :=
  if receiptVersion = 1 then .ok randomId
  else
    match canonicalOperationId f journal.authorityId journal.nextId with
    | .ok id => .ok id
    | .error _ => .error "invalid sequenced operation identity"

/-- `accept_config`, by an actor that may. -/
def acceptConfig (journal : Journal) (actor : Actor) (nowMs : Nat) (randomId : Bytes)
    (request : ConfigAcceptRequest) : Except String (Journal × ConfigOperation) := do
  ensure (validHex journal.authorityId 32 ∧ 1 ≤ journal.nextId ∧ journal.nextId ≤ maxSafeId + 1 ∧
    journal.storedRecords ≤ configOperationCapacity ∧ journal.historyRevision < maxSafeId ∧
    validHex journal.retainedIdsSha256 64) "local config operation metadata inconsistent"
  let ids ← verifyConfigHistory f journal
  ensure (journal.storedRecords < configOperationCapacity ∧ validId journal.nextId)
    "local config operation capacity exhausted"
  let operationId ← newOperationId f journal request.receiptVersion randomId
  let row : OperationRow :=
    { id := journal.nextId
      operationId := operationId
      receiptVersion := request.receiptVersion
      authorityId := journal.authorityId
      actor := actor
      acceptedAt := nowMs
      expectedRevision := request.expectedRevision
      candidateSha256 := request.candidateSha256
      storeKind := request.storeKind
      authorityEpoch := request.authorityEpoch
      state := .accepted
      finishedAt := none }
  let record := row.joined none
  ensure (validConfigOperation f record) "invalid local config operation"
  ensure (∀ other ∈ journal.operations, other.id ≠ row.id ∧ other.operationId ≠ row.operationId)
    "UNIQUE constraint failed: admin_config_operations"
  let journal :=
    { journal with
      operations := journal.operations ++ [row]
      nextId := journal.nextId + 1
      storedRecords := journal.storedRecords + 1
      historyRevision := journal.historyRevision + 1
      retainedIdsSha256 := idsSha256 f (ids ++ [journal.nextId]) }
  .ok (journal, record)

/-- `UPDATE … SET state, finished_at_unix_ms WHERE operation_id AND state='accepted'`. -/
def OperationRow.finish (operationId : Bytes) (state : ConfigOperationState) (nowMs : Nat)
    (row : OperationRow) : OperationRow :=
  if row.operationId = operationId ∧ row.state = .accepted then
    { row with
      state := state
      finishedAt := some nowMs }
  else row

/-- `finish_config`. -/
def finishConfig (journal : Journal) (nowMs : Nat) (operationId : Bytes)
    (state : ConfigOperationState) : Except String (Journal × ConfigOperation) := do
  ensure (validHex operationId 32 ∧ state ≠ .accepted) "local config operation state conflict"
  ensure (journal.historyRevision < maxSafeId) "local config operation history revision exhausted"
  ensure ((journal.operations.filter fun row =>
    row.operationId = operationId ∧ row.state = .accepted).length = 1)
    "local config operation state conflict"
  let journal :=
    { journal with
      operations := journal.operations.map (OperationRow.finish operationId state nowMs)
      historyRevision := journal.historyRevision + 1 }
  match ← findConfigOperation f journal operationId with
  | none => .error "Query returned no rows"
  | some record => .ok (journal, record)

/-- The release work of an operation. -/
def findWork (journal : Journal) (operationId : Bytes) : Except String ConfigReleaseWork := do
  match (← findConfigOperation f journal operationId).bind releaseWorkFromOperation with
  | none => .error "local config operation state conflict"
  | some work => .ok work

/-- `prepare_config_release_authorized`, by an actor that may. -/
def prepareConfigRelease (journal : Journal) (nowMs : Nat) (randomId operationId : Bytes)
    (receipt : SequencedCommitReceipt) : Except String (Journal × ConfigReleaseWork) := do
  match ← findConfigOperation f journal operationId with
  | none => .error "local config operation state conflict"
  | some operation =>
    ensure (receiptMatchesOperation operation.toOperationRow receipt)
      "local config operation state conflict"
    match releaseWorkFromOperation operation with
    | some existing =>
      ensure (existing.receipt = receipt) "local config operation state conflict"
      .ok (journal, existing)
    | none =>
      ensure (journal.historyRevision < maxSafeId)
        "local config operation history revision exhausted"
      ensure ((journal.releases.lookup operationId).isNone ∧
        ∀ entry ∈ journal.releases.entries, entry.2.releaseId ≠ randomId)
        "UNIQUE constraint failed: admin_config_releases"
      let release : ReleaseRow :=
        ⟨randomId, receipt.stamp.authorityId, receipt.stamp.acceptanceSeq, receipt.epoch,
          receipt.revision, receipt.stamp.candidateSha256, nowMs, none⟩
      let journal :=
        { journal with
          releases := journal.releases.insert operationId release
          historyRevision := journal.historyRevision + 1 }
      let prepared ← findWork f journal operationId
      ensure (prepared.receipt = receipt ∧ prepared.state = .pending)
        "local release work changed during preparation"
      .ok (journal, prepared)

/-- `acknowledge_config_release`. -/
def acknowledgeConfigRelease (journal : Journal) (nowMs : Nat) (work : ConfigReleaseWork) :
    Except String (Journal × ConfigReleaseWork) := do
  ensure (validHex work.releaseId 32 ∧ (work.state = .pending ∨ work.state = .acknowledged))
    "local config operation state conflict"
  let operationId := work.receipt.stamp.operationId
  let current ← findWork f journal operationId
  ensure (current.releaseId = work.releaseId ∧ current.receipt = work.receipt)
    "local config operation state conflict"
  if current.state = .acknowledged then .ok (journal, current)
  else
    ensure (journal.historyRevision < maxSafeId) "local config operation history revision exhausted"
    match journal.releases.lookup operationId with
    | none => .error "local release state changed during acknowledgement"
    | some release =>
      ensure (release.releaseId = work.releaseId ∧ release.state = .pending)
        "local release state changed during acknowledgement"
      let journal :=
        { journal with
          releases := journal.releases.insert operationId { release with acknowledgedAt := nowMs }
          historyRevision := journal.historyRevision + 1 }
      let acknowledged ← findWork f journal operationId
      ensure (acknowledged.state = .acknowledged ∧ acknowledged.releaseId = work.releaseId ∧
        acknowledged.receipt = work.receipt) "local release acknowledgement mismatch"
      .ok (journal, acknowledged)

/-- The release of an operation is acknowledged. -/
def Journal.acknowledged (journal : Journal) (row : OperationRow) : Bool :=
  (journal.releases.lookup row.operationId).any fun release => release.state = .acknowledged

/-- The rows that a prune deletes. -/
def Journal.prunable (journal : Journal) (throughId : Nat) (row : OperationRow) : Bool :=
  row.id ≤ throughId &&
    (row.state = .candidateActivated || row.state = .conflict || row.state = .failed) &&
    (row.receiptVersion = 1 || journal.acknowledged row)

/-- The rows that stay although they are in its range. -/
def Journal.unresolved (journal : Journal) (row : OperationRow) : Bool :=
  row.state = .accepted || row.state = .indeterminate ||
    row.receiptVersion = 2 && !journal.acknowledged row

/-- `prune_config_operations`, by an actor that may, up to its record: how many rows went, and
    how many unresolved ones stayed. Releases go with their operations. -/
def pruneConfigOperations (journal : Journal)
    (throughId expectedLatestId expectedHistoryRevision : Nat) :
    Except String (Journal × Nat × Nat) := do
  ensure (1 ≤ journal.nextId ∧ journal.nextId ≤ maxSafeId + 1 ∧
    journal.storedRecords ≤ configOperationCapacity ∧ journal.historyRevision < maxSafeId ∧
    journal.prunedThrough < journal.nextId ∧ validHex journal.retainedIdsSha256 64)
    "local config operation metadata inconsistent"
  let _ ← verifyConfigHistory f journal
  ensure (0 < throughId ∧ throughId < journal.nextId ∧ expectedLatestId = journal.nextId - 1 ∧
    expectedHistoryRevision = journal.historyRevision) "local config operation state conflict"
  let gone := journal.operations.filter (journal.prunable throughId)
  let kept := journal.operations.filter fun row => !journal.prunable throughId row
  ensure (gone.length ≠ 0) "local config operation state conflict"
  let pruned :=
    { journal with
      operations := kept
      releases := Table.retain (fun operationId _ =>
        operationId ∉ gone.map OperationRow.operationId) journal.releases }
  let retainedUnresolved := (kept.filter fun row => row.id ≤ throughId &&
    pruned.unresolved row).length
  let ids ← scanConfigIds pruned
  let pruned :=
    { pruned with
      storedRecords := journal.storedRecords - gone.length
      historyRevision := journal.historyRevision + 1
      prunedThrough := max journal.prunedThrough throughId
      retainedIdsSha256 := idsSha256 f ids }
  .ok (pruned, gone.length, retainedUnresolved)

/-- The journal of a new store. -/
def Journal.initial (authorityId : Bytes) : Journal where
  authorityId := authorityId
  operations := []
  releases := ∅
  nextId := 1
  storedRecords := 0
  historyRevision := 0
  prunedThrough := 0
  retainedIdsSha256 := idsSha256 f []

end journal

/-! ## What is read -/

variable {Config : Type} {f : Format Config} {journal journal' : Journal} {row : OperationRow}
  {operationId : Bytes} {work : ConfigReleaseWork} {nowMs : Nat}

theorem readConfigOperation_eq_ok {release : Option ReleaseRow} {operation : ConfigOperation}
    (h : readConfigOperation f row release = .ok operation) :
    operation = row.joined release ∧ validConfigOperation f operation = true := by
  simp only [readConfigOperation, bind_eq_ok] at h
  obtain ⟨_, -, _, -, _, hvalid, h⟩ := h
  obtain rfl := Except.ok.inj h
  exact ⟨rfl, (ensure_eq_ok.mp hvalid).1⟩

theorem findConfigOperation_eq_ok {operation : ConfigOperation}
    (h : findConfigOperation f journal operationId = .ok (some operation)) :
    ∃ row ∈ journal.operations, row.operationId = operationId ∧
      operation = row.joined (journal.releases.lookup operationId) ∧
      validConfigOperation f operation = true := by
  unfold findConfigOperation at h
  split at h
  · cases h
  next row hrow =>
    obtain ⟨read, hread, h⟩ := bind_eq_ok.mp h
    obtain rfl := Option.some.inj (Except.ok.inj h)
    obtain ⟨hjoined, hvalid⟩ := readConfigOperation_eq_ok hread
    have hid : row.operationId = operationId := by simpa using List.find?_some hrow
    exact ⟨row, List.mem_of_find?_eq_some hrow, hid, hjoined, hvalid⟩

/-- The receipt that an operation promises. -/
def OperationRow.receipt (row : OperationRow) (epoch : Bytes) : SequencedCommitReceipt :=
  ⟨epoch, row.expectedRevision + 1, row.authorityId, row.id, row.operationId,
    row.candidateSha256⟩

/-- Release work is read off the release row. -/
theorem releaseWork_eq_some {release : Option ReleaseRow}
    (h : releaseWorkFromOperation (row.joined release) = some work) :
    ∃ r epoch, release = some r ∧ row.authorityEpoch = some epoch ∧
      work = ⟨r.releaseId, row.receipt epoch, r.state⟩ := by
  unfold releaseWorkFromOperation at h
  obtain ⟨releaseId, hrelease, h⟩ := Option.bind_eq_some_iff.mp h
  obtain ⟨epoch, hepoch, h⟩ := Option.bind_eq_some_iff.mp h
  obtain rfl := Option.some.inj h
  cases release with
  | none => cases hrelease
  | some r =>
    obtain rfl := Option.some.inj hrelease
    exact ⟨r, epoch, rfl, hepoch, rfl⟩

theorem findWork_eq_ok (h : findWork f journal operationId = .ok work) :
    ∃ row ∈ journal.operations, ∃ r epoch, row.operationId = operationId ∧
      journal.releases.lookup operationId = some r ∧ row.authorityEpoch = some epoch ∧
      validConfigOperation f (row.joined (some r)) = true ∧
      work = ⟨r.releaseId, row.receipt epoch, r.state⟩ := by
  obtain ⟨found, hfound, h⟩ := bind_eq_ok.mp h
  split at h
  · cases h
  next work' hwork =>
    obtain rfl := Except.ok.inj h
    obtain ⟨operation, rfl, hwork⟩ := Option.bind_eq_some_iff.mp hwork
    obtain ⟨row, hmem, hid, rfl, hvalid⟩ := findConfigOperation_eq_ok hfound
    obtain ⟨r, epoch, hlookup, hepoch, heq⟩ := releaseWork_eq_some hwork
    rw [hlookup] at hvalid
    exact ⟨row, hmem, r, epoch, hid, hlookup, hepoch, hvalid, heq⟩

theorem validRelease_joined {r : ReleaseRow} (h : (row.joined (some r)).validRelease = true) :
    row.receiptVersion = 2 := by
  have hwork : (decide (row.receiptVersion = 2) && decide (row.state = .candidateActivated) &&
      validHex r.releaseId 32) = true := by
    obtain ⟨releaseId, authorityId, seq, epoch, revision, candidate, prepared, acknowledgedAt⟩ := r
    cases acknowledgedAt with
    | none => exact h
    | some time => exact h
  rw [Bool.and_eq_true, Bool.and_eq_true] at hwork
  exact of_decide_eq_true hwork.1.1

/-- An operation that has release work has the identity of its sequence. -/
theorem canonical_of_valid {r : ReleaseRow}
    (h : validConfigOperation f (row.joined (some r)) = true) :
    canonicalOperationId f row.authorityId row.id = .ok row.operationId := by
  unfold validConfigOperation at h
  rw [Bool.and_eq_true, Bool.and_eq_true] at h
  obtain ⟨⟨-, hversion⟩, hrelease⟩ := h
  have hsecond := validRelease_joined hrelease
  unfold ConfigOperation.validVersion at hversion
  rcases Bool.or_eq_true_iff.mp hversion with hfirst | hsequenced
  · have hfirst : row.receiptVersion = 1 := of_decide_eq_true hfirst
    omega
  · exact toOption_eq_some.mp (of_decide_eq_true (Bool.and_eq_true_iff.mp hsequenced).2)

/-- Identities of version 2 are told apart by their sequences. -/
theorem id_eq_of_operationId_eq {a b : Bytes} {n m : Nat}
    (ha : canonicalOperationId f a n = .ok operationId)
    (hb : canonicalOperationId f b m = .ok operationId) : n = m := by
  simp only [canonicalOperationId, bind_eq_ok] at ha hb
  obtain ⟨_, hn, ha⟩ := ha
  obtain ⟨_, hm, hb⟩ := hb
  have heq := (Except.ok.inj ha).trans (Except.ok.inj hb).symm
  have hlength : (lowerHex (beBytes 8 n)).length = (lowerHex (beBytes 8 m)).length := by
    rw [length_lowerHex, length_lowerHex, length_beBytes, length_beBytes]
  have hsequence := lowerHex_injective (List.append_inj_left heq hlength)
  have hmax : maxAcceptanceSequence < 256 ^ 8 := by decide
  exact beBytes_inj_of_lt (Nat.lt_of_le_of_lt (ensure_eq_ok.mp hn).2.2 hmax)
    (Nat.lt_of_le_of_lt (ensure_eq_ok.mp hm).2.2 hmax) hsequence

/-! ## What each call writes -/

/-- The counter and the digest belong to the retained rows, whose ids ascend. -/
structure Journal.Sound (f : Format Config) (journal : Journal) : Prop where
  ascending : journal.operations.Pairwise fun a b => a.id < b.id
  below : ∀ row ∈ journal.operations, 1 ≤ row.id ∧ row.id < journal.nextId
  next : 1 ≤ journal.nextId
  stored : journal.storedRecords = journal.operations.length
  capacity : journal.operations.length ≤ configOperationCapacity
  digest : journal.retainedIdsSha256 = idsSha256 f (journal.operations.map OperationRow.id)
  identities : journal.operations.Pairwise fun a b => a.operationId ≠ b.operationId

/-- One row after another: it is the same, or it has left the accepted state. -/
def OperationRow.Becomes (row row' : OperationRow) : Prop :=
  row' = row ∨ row.state = .accepted ∧
    row' =
      { row with
        state := row'.state
        finishedAt := row'.finishedAt }

theorem OperationRow.Becomes.id_eq {row' : OperationRow} (h : row.Becomes row') :
    row'.id = row.id ∧ row'.operationId = row.operationId := by
  rcases h with rfl | ⟨-, h⟩
  · exact ⟨rfl, rfl⟩
  · rw [h]
    exact ⟨rfl, rfl⟩

/-- One journal after another, over any number of calls. -/
structure Journal.Follows (journal journal' : Journal) : Prop where
  next : journal.nextId ≤ journal'.nextId
  /-- A row has a new id, or it was there. -/
  rows : ∀ row' ∈ journal'.operations, journal.nextId ≤ row'.id ∨
    ∃ row ∈ journal.operations, row.Becomes row'
  /-- A release keeps its identity as long as its operation is there. -/
  releases : ∀ row' ∈ journal'.operations, row'.id < journal.nextId → ∀ release,
    journal.releases.lookup row'.operationId = some release →
    ∃ release', journal'.releases.lookup row'.operationId = some release' ∧
      release'.releaseId = release.releaseId ∧
      (release.state = .acknowledged → release'.state = .acknowledged)

theorem Journal.Follows.refl (journal : Journal) : Journal.Follows journal journal :=
  ⟨Nat.le_refl _, fun row' hrow' => .inr ⟨row', hrow', .inl rfl⟩, fun _ _ _ release hrelease =>
    ⟨release, hrelease, rfl, id⟩⟩

theorem OperationRow.Becomes.trans {a b c : OperationRow} (h : a.Becomes b) (h' : b.Becomes c) :
    a.Becomes c := by
  rcases h with rfl | ⟨haccepted, hb⟩
  · exact h'
  · rcases h' with rfl | ⟨-, hc⟩
    · exact .inr ⟨haccepted, hb⟩
    · refine .inr ⟨haccepted, ?_⟩
      rw [hb] at hc
      exact hc

theorem Journal.Follows.trans {j₁ j₂ j₃ : Journal} (h : Journal.Follows j₁ j₂)
    (h' : Journal.Follows j₂ j₃) : Journal.Follows j₁ j₃ := by
  have hback : ∀ row₃ ∈ j₃.operations, row₃.id < j₁.nextId →
      ∃ row₂ ∈ j₂.operations, row₂.Becomes row₃ := by
    intro row₃ hrow₃ hlt
    rcases h'.rows row₃ hrow₃ with hnew | hold
    · exact absurd (Nat.le_trans h.next hnew) (Nat.not_le_of_lt hlt)
    · exact hold
  refine ⟨Nat.le_trans h.next h'.next, fun row₃ hrow₃ => ?_,
    fun row₃ hrow₃ hlt release hlookup => ?_⟩
  · rcases Nat.lt_or_ge row₃.id j₁.nextId with hlt | hge
    · obtain ⟨row₂, hrow₂, hbecomes⟩ := hback row₃ hrow₃ hlt
      rcases h.rows row₂ hrow₂ with hnew | ⟨row₁, hrow₁, hfirst⟩
      · rw [hbecomes.id_eq.1] at hlt
        exact absurd hnew (Nat.not_le_of_lt hlt)
      · exact .inr ⟨row₁, hrow₁, hfirst.trans hbecomes⟩
    · exact .inl hge
  · obtain ⟨row₂, hrow₂, hbecomes⟩ := hback row₃ hrow₃ hlt
    obtain ⟨hid, hoperation⟩ := hbecomes.id_eq
    rw [hoperation] at hlookup
    obtain ⟨release₂, hlookup₂, hsame₂, hstate₂⟩ :=
      h.releases row₂ hrow₂ (hid ▸ hlt) release hlookup
    rw [← hoperation] at hlookup₂
    obtain ⟨release₃, hlookup₃, hsame₃, hstate₃⟩ :=
      h'.releases row₃ hrow₃ (Nat.lt_of_lt_of_le hlt h.next) release₂ hlookup₂
    exact ⟨release₃, hlookup₃, hsame₃.trans hsame₂, fun hstate => hstate₃ (hstate₂ hstate)⟩

/-- One call: beside what holds over any number of them, unresolved rows stay and a release is
    prepared before it is acknowledged. -/
structure Journal.Step (journal journal' : Journal) : Prop where
  follows : Journal.Follows journal journal'
  unresolved : ∀ row ∈ journal.operations, journal.unresolved row = true →
    ∃ row' ∈ journal'.operations, row.Becomes row'
  prepared : ∀ operationId release', journal'.releases.lookup operationId = some release' →
    (journal.releases.lookup operationId = none ∧ release'.state = .pending) ∨
      ∃ release, journal.releases.lookup operationId = some release ∧
        release'.releaseId = release.releaseId ∧
        release'.receipt operationId = release.receipt operationId

theorem Journal.Step.refl (journal : Journal) : Journal.Step journal journal :=
  ⟨Journal.Follows.refl journal, fun row hrow _ => ⟨row, hrow, .inl rfl⟩,
    fun _ release' hrelease' => .inr ⟨release', hrelease', rfl, rfl⟩⟩

/-- The scan reads the ids as they are. -/
theorem scanConfigIds_eq_ok {ids : List Nat}
    (hascending : journal.operations.Pairwise fun a b => a.id < b.id)
    (hcapacity : journal.operations.length ≤ configOperationCapacity)
    (h : scanConfigIds journal = .ok ids) : ids = journal.operations.map OperationRow.id := by
  simp only [scanConfigIds, bind_eq_ok] at h
  obtain ⟨_, -, h⟩ := h
  have hsorted : (journal.operations.map OperationRow.id).Pairwise fun a b =>
      decide (a ≤ b) = true := by
    rw [List.pairwise_map]
    exact hascending.imp fun hlt => decide_eq_true (Nat.le_of_lt hlt)
  rw [← Except.ok.inj h, List.mergeSort_of_pairwise hsorted, List.take_of_length_le]
  rw [List.length_map]
  exact Nat.le_succ_of_le hcapacity

theorem verifyConfigHistory_eq_ok (hsound : journal.Sound f) {ids : List Nat}
    (h : verifyConfigHistory f journal = .ok ids) :
    ids = journal.operations.map OperationRow.id := by
  simp only [verifyConfigHistory, bind_eq_ok] at h
  obtain ⟨ids', hscan, _, -, h⟩ := h
  obtain rfl := Except.ok.inj h
  exact scanConfigIds_eq_ok hsound.ascending hsound.capacity hscan

/-- **Accept**: the row has the next id. -/
theorem acceptConfig_step (hsound : journal.Sound f) {actor : Actor} {randomId : Bytes}
    {request : ConfigAcceptRequest} {record : ConfigOperation}
    (h : acceptConfig f journal actor nowMs randomId request = .ok (journal', record)) :
    journal'.Sound f ∧ Journal.Step journal journal' ∧ record.id = journal.nextId ∧
      journal'.nextId = journal.nextId + 1 := by
  simp only [acceptConfig, bind_eq_ok] at h
  obtain ⟨_, -, ids, hids, _, hfree, operationId, -, _, -, _, hunique, h⟩ := h
  obtain rfl := verifyConfigHistory_eq_ok hsound hids
  have hunique := ensure_eq_ok.mp hunique
  obtain ⟨hfree, -⟩ := ensure_eq_ok.mp hfree
  obtain ⟨rfl, rfl⟩ := ok_pair_inj h
  have hstored := hsound.stored
  -- the new row stands last; every clause is about the old rows and this one
  refine ⟨⟨?_, ?_, Nat.le_succ_of_le hsound.next, ?_, ?_, ?_, ?_⟩, ⟨⟨?_, ?_, ?_⟩, ?_, ?_⟩, rfl, rfl⟩
  · rw [List.pairwise_append]
    refine ⟨hsound.ascending, List.pairwise_singleton _ _, fun a ha b hb => ?_⟩
    rw [List.mem_singleton.mp hb]
    exact (hsound.below a ha).2
  · intro row hrow
    rcases List.mem_append.mp hrow with hold | hnew
    · exact ⟨(hsound.below row hold).1, Nat.lt_succ_of_lt (hsound.below row hold).2⟩
    · rw [List.mem_singleton.mp hnew]
      exact ⟨hsound.next, Nat.lt_succ_self _⟩
  · show journal.storedRecords + 1 = (journal.operations ++ [_]).length
    rw [List.length_append, List.length_singleton, hstored]
  · rw [List.length_append, List.length_singleton, ← hstored]
    exact hfree
  · rw [List.map_append]
    rfl
  · rw [List.pairwise_append]
    refine ⟨hsound.identities, List.pairwise_singleton _ _, fun a ha b hb => ?_⟩
    rw [List.mem_singleton.mp hb]
    exact (hunique a ha).2
  · exact Nat.le_succ _
  · intro row' hrow'
    rcases List.mem_append.mp hrow' with hold | hnew
    · exact .inr ⟨row', hold, .inl rfl⟩
    · rw [List.mem_singleton.mp hnew]
      exact .inl (Nat.le_refl _)
  · exact fun _ _ _ release hrelease => ⟨release, hrelease, rfl, id⟩
  · exact fun row hrow _ => ⟨row, List.mem_append_left _ hrow, .inl rfl⟩
  · exact fun _ release' hrelease' => .inr ⟨release', hrelease', rfl, rfl⟩

theorem finish_becomes (operationId : Bytes) (state : ConfigOperationState) (nowMs : Nat)
    (row : OperationRow) : row.Becomes (row.finish operationId state nowMs) := by
  unfold OperationRow.finish
  split
  next h => exact .inr ⟨h.2, rfl⟩
  next => exact .inl rfl

/-- Rows that leave the accepted state keep ids and identities. -/
theorem Journal.Sound.map_rows (hsound : journal.Sound f) {g : OperationRow → OperationRow}
    (hg : ∀ row : OperationRow, row.Becomes (g row)) (historyRevision : Nat) :
    Journal.Sound f
      { journal with
        operations := journal.operations.map g
        historyRevision := historyRevision } where
  ascending := by
    rw [List.pairwise_map]
    refine hsound.ascending.imp fun {a b} hlt => ?_
    rw [(hg a).id_eq.1, (hg b).id_eq.1]
    exact hlt
  below := by
    intro row hrow
    obtain ⟨old, hold, rfl⟩ := List.mem_map.mp hrow
    rw [(hg old).id_eq.1]
    exact hsound.below old hold
  next := hsound.next
  stored := by
    rw [List.length_map]
    exact hsound.stored
  capacity := by
    rw [List.length_map]
    exact hsound.capacity
  digest := by
    rw [List.map_map]
    have hids : journal.operations.map (OperationRow.id ∘ g) =
        journal.operations.map OperationRow.id :=
      List.map_congr_left fun row _ => (hg row).id_eq.1
    rw [hids]
    exact hsound.digest
  identities := by
    rw [List.pairwise_map]
    refine hsound.identities.imp fun {a b} hne => ?_
    rw [(hg a).id_eq.2, (hg b).id_eq.2]
    exact hne

/-- **Finish**: an accepted row leaves that state. -/
theorem finishConfig_step (hsound : journal.Sound f) {state : ConfigOperationState}
    {record : ConfigOperation}
    (h : finishConfig f journal nowMs operationId state = .ok (journal', record)) :
    journal'.Sound f ∧ Journal.Step journal journal' := by
  simp only [finishConfig, bind_eq_ok] at h
  obtain ⟨_, -, _, -, _, -, found, -, h⟩ := h
  split at h
  · cases h
  · obtain ⟨rfl, -⟩ := ok_pair_inj h
    refine ⟨hsound.map_rows (finish_becomes operationId state nowMs) _,
      ⟨⟨Nat.le_refl _, ?_, ?_⟩, ?_, ?_⟩⟩
    · intro row' hrow'
      obtain ⟨row, hrow, rfl⟩ := List.mem_map.mp hrow'
      exact .inr ⟨row, hrow, finish_becomes operationId state nowMs row⟩
    · exact fun _ _ _ release hrelease => ⟨release, hrelease, rfl, id⟩
    · intro row hrow _
      exact ⟨_, List.mem_map_of_mem hrow, finish_becomes operationId state nowMs row⟩
    · exact fun _ release' hrelease' => .inr ⟨release', hrelease', rfl, rfl⟩

/-- What changes no row keeps the summaries. -/
theorem Journal.Sound.with_releases (hsound : journal.Sound f) (releases : Table Bytes ReleaseRow)
    (historyRevision : Nat) :
    Journal.Sound f
      { journal with
        releases := releases
        historyRevision := historyRevision } :=
  ⟨hsound.ascending, hsound.below, hsound.next, hsound.stored, hsound.capacity, hsound.digest,
    hsound.identities⟩

/-- A release is written: it is new and pending, or it keeps its identity and its receipt. -/
theorem Journal.step_of_release {release : ReleaseRow}
    (h : (journal.releases.lookup operationId = none ∧ release.state = .pending) ∨
      ∃ old, journal.releases.lookup operationId = some old ∧
        release.releaseId = old.releaseId ∧
        release.receipt operationId = old.receipt operationId ∧ release.state = .acknowledged)
    (historyRevision : Nat) :
    Journal.Step journal
      { journal with
        releases := journal.releases.insert operationId release
        historyRevision := historyRevision } := by
  refine ⟨⟨Nat.le_refl _, fun row' hrow' => .inr ⟨row', hrow', .inl rfl⟩, ?_⟩, ?_, ?_⟩
  · intro row' _ _ old hold
    by_cases hkey : row'.operationId = operationId
    · rw [hkey] at hold
      rcases h with ⟨hnone, -⟩ | ⟨found, hfound, hidentity, -, hstate⟩
      · rw [hnone] at hold
        cases hold
      · obtain rfl := Option.some.inj (hfound.symm.trans hold)
        refine ⟨release, ?_, hidentity, fun _ => hstate⟩
        rw [hkey]
        exact AList.lookup_insert _
    · exact ⟨old, (AList.lookup_insert_ne hkey).trans hold, rfl, id⟩
  · exact fun row hrow _ => ⟨row, hrow, .inl rfl⟩
  · intro key release' hrelease'
    rcases Table.lookup_of_insert hrelease' with ⟨rfl, rfl⟩ | hold
    · rcases h with hnew | ⟨old, hold, hidentity, hreceipt, -⟩
      · exact .inl hnew
      · exact .inr ⟨old, hold, hidentity, hreceipt⟩
    · exact .inr ⟨release', hold, rfl, rfl⟩

/-- **Prepare**: the work that is returned is stored. -/
theorem prepareConfigRelease_step (hsound : journal.Sound f) {randomId : Bytes}
    {receipt : SequencedCommitReceipt}
    (h : prepareConfigRelease f journal nowMs randomId operationId receipt = .ok (journal', work)) :
    journal'.Sound f ∧ Journal.Step journal journal' ∧
      findWork f journal' operationId = .ok work := by
  simp only [prepareConfigRelease, bind_eq_ok] at h
  obtain ⟨found, hfound, h⟩ := h
  split at h
  · cases h
  next operation =>
    obtain ⟨_, -, h⟩ := bind_eq_ok.mp h
    split at h
    next existing hexisting =>
      obtain ⟨_, -, h⟩ := bind_eq_ok.mp h
      obtain ⟨rfl, rfl⟩ := ok_pair_inj h
      refine ⟨hsound, Journal.Step.refl _, ?_⟩
      unfold findWork
      rw [hfound, ok_bind, Option.bind_some, hexisting]
    next =>
      simp only [bind_eq_ok] at h
      obtain ⟨_, -, _, hunique, prepared, hprepared, _, -, h⟩ := h
      obtain ⟨rfl, rfl⟩ := ok_pair_inj h
      have hnone := Option.isNone_iff_eq_none.mp (ensure_eq_ok.mp hunique).1
      exact ⟨hsound.with_releases _ _, Journal.step_of_release (.inl ⟨hnone, rfl⟩) _, hprepared⟩

/-- **Acknowledge**: the release was prepared, under this identity and for this receipt. -/
theorem acknowledgeConfigRelease_step (hsound : journal.Sound f) {acknowledged : ConfigReleaseWork}
    (h : acknowledgeConfigRelease f journal nowMs work = .ok (journal', acknowledged)) :
    journal'.Sound f ∧ Journal.Step journal journal' ∧
      ∃ current, findWork f journal work.receipt.stamp.operationId = .ok current ∧
        current.releaseId = work.releaseId ∧ current.receipt = work.receipt := by
  simp only [acknowledgeConfigRelease, bind_eq_ok] at h
  obtain ⟨_, -, current, hcurrent, _, hsame, h⟩ := h
  have hwork : ∃ current, findWork f journal work.receipt.stamp.operationId = .ok current ∧
      current.releaseId = work.releaseId ∧ current.receipt = work.receipt :=
    ⟨current, hcurrent, ensure_eq_ok.mp hsame⟩
  split at h
  · obtain ⟨rfl, -⟩ := ok_pair_inj h
    exact ⟨hsound, Journal.Step.refl _, hwork⟩
  · obtain ⟨_, -, h⟩ := bind_eq_ok.mp h
    split at h
    · cases h
    next release hrelease =>
      simp only [bind_eq_ok] at h
      obtain ⟨_, -, found, -, _, -, h⟩ := h
      obtain ⟨rfl, -⟩ := ok_pair_inj h
      refine ⟨hsound.with_releases _ _, Journal.step_of_release ?_ _, hwork⟩
      exact .inr ⟨release, hrelease, rfl, rfl, rfl⟩

/-- Unresolved rows are not pruned. -/
theorem prunable_eq_false {throughId : Nat} (h : journal.unresolved row = true) :
    journal.prunable throughId row = false := by
  unfold Journal.unresolved at h
  unfold Journal.prunable
  cases hstate : row.state <;> simp_all

/-- An identity belongs to one row. -/
theorem Journal.Sound.row_eq (hsound : journal.Sound f) {a b : OperationRow}
    (ha : a ∈ journal.operations) (hb : b ∈ journal.operations)
    (h : a.operationId = b.operationId) : a = b :=
  List.inj_on_of_nodup_map (List.pairwise_map.mpr hsound.identities) ha hb h

/-- **Prune**: what goes is finished, and released where it has to be. -/
theorem pruneConfigOperations_step (hsound : journal.Sound f)
    {throughId expectedLatestId expectedHistoryRevision deleted unresolved : Nat}
    (h : pruneConfigOperations f journal throughId expectedLatestId expectedHistoryRevision =
      .ok (journal', deleted, unresolved)) :
    journal'.Sound f ∧ Journal.Step journal journal' ∧ expectedLatestId = journal.nextId - 1 ∧
      expectedHistoryRevision = journal.historyRevision := by
  simp only [pruneConfigOperations, bind_eq_ok] at h
  obtain ⟨_, -, _, -, _, hexpected, _, -, ids, hids, h⟩ := h
  obtain ⟨-, -, hlatest, hhistory⟩ := ensure_eq_ok.mp hexpected
  -- the rows split into those that go and those that stay
  have hlength := List.length_eq_length_filter_add (journal.prunable throughId)
    (l := journal.operations)
  have hkept := List.length_filter_le (fun row => !journal.prunable throughId row)
    journal.operations
  have hids := scanConfigIds_eq_ok (hsound.ascending.filter _)
    (Nat.le_trans hkept hsound.capacity) hids
  obtain ⟨rfl, -⟩ := ok_pair_inj h
  refine ⟨⟨hsound.ascending.filter _, ?_, hsound.next, ?_, Nat.le_trans hkept hsound.capacity, ?_,
    hsound.identities.filter _⟩, ⟨⟨Nat.le_refl _, ?_, ?_⟩, ?_, ?_⟩, hlatest, hhistory⟩
  · exact fun row hrow => hsound.below row (List.mem_of_mem_filter hrow)
  · show journal.storedRecords - (journal.operations.filter (journal.prunable throughId)).length =
      (journal.operations.filter fun row => !journal.prunable throughId row).length
    rw [hsound.stored]
    omega
  · rw [hids]
  · exact fun row' hrow' => .inr ⟨row', List.mem_of_mem_filter hrow', .inl rfl⟩
  -- the release of a row that stays is not deleted: the row would have to be one that goes
  · intro row' hrow' _ release hrelease
    obtain ⟨hmem, hstays⟩ := List.mem_filter.mp hrow'
    refine ⟨release, ?_, rfl, id⟩
    rw [Table.lookup_retain, hrelease, Option.filter_some, if_pos]
    refine decide_eq_true fun hgone => ?_
    obtain ⟨gone, hgone, hsame⟩ := List.mem_map.mp hgone
    obtain ⟨hgoneMem, hprunable⟩ := List.mem_filter.mp hgone
    rw [hsound.row_eq hgoneMem hmem hsame] at hprunable
    rw [hprunable] at hstays
    cases hstays
  · intro row hrow hunresolved
    refine ⟨row, List.mem_filter.mpr ⟨hrow, ?_⟩, .inl rfl⟩
    rw [prunable_eq_false hunresolved]
    rfl
  · intro key release' hrelease'
    rw [Table.lookup_retain, Option.filter_eq_some_iff] at hrelease'
    exact .inr ⟨release', hrelease'.1, rfl, rfl⟩

/-- **Identity**: release work that is found again is the same work. A pruned operation is not
    found, since its id, and with it its identity, is never used again. -/
theorem findWork_follows (hsound : journal.Sound f) (hfollows : Journal.Follows journal journal')
    {work' : ConfigReleaseWork} (h : findWork f journal operationId = .ok work)
    (h' : findWork f journal' operationId = .ok work') :
    work'.releaseId = work.releaseId ∧ work'.receipt = work.receipt := by
  obtain ⟨row, hrow, r, epoch, hid, hlookup, hepoch, hvalid, rfl⟩ := findWork_eq_ok h
  obtain ⟨row', hrow', r', epoch', hid', hlookup', hepoch', hvalid', rfl⟩ := findWork_eq_ok h'
  have hcanonical := canonical_of_valid hvalid
  have hcanonical' := canonical_of_valid hvalid'
  rw [hid] at hcanonical
  rw [hid'] at hcanonical'
  -- equal operation ids mean equal row ids
  have hsequence := id_eq_of_operationId_eq hcanonical' hcanonical
  -- so the later row was there before, and has only become what it is
  have hlt : row'.id < journal.nextId := by
    rw [hsequence]
    exact (hsound.below row hrow).2
  obtain ⟨old, hold, hbecomes⟩ : ∃ old ∈ journal.operations, old.Becomes row' := by
    rcases hfollows.rows row' hrow' with hnew | hold
    · exact absurd hnew (Nat.not_le_of_lt hlt)
    · exact hold
  obtain rfl : old = row :=
    hsound.row_eq hold hrow (hbecomes.id_eq.2.symm.trans (hid'.trans hid.symm))
  constructor
  · rw [← hid'] at hlookup hlookup'
    obtain ⟨found, hfound, hsame, -⟩ := hfollows.releases row' hrow' hlt r hlookup
    obtain rfl := Option.some.inj (hfound.symm.trans hlookup')
    exact hsame
  · have hsameEpoch : epoch' = epoch := by
      rcases hbecomes with rfl | ⟨-, heq⟩
      · exact Option.some.inj (hepoch'.symm.trans hepoch)
      · rw [heq] at hepoch'
        exact Option.some.inj (hepoch'.symm.trans hepoch)
    rw [hsameEpoch]
    rcases hbecomes with rfl | ⟨-, heq⟩
    · rfl
    · rw [heq]
      rfl

theorem journal_initial_sound (f : Format Config) (authorityId : Bytes) :
    (Journal.initial f authorityId).Sound f :=
  ⟨.nil, fun _ h => absurd h List.not_mem_nil, Nat.le_refl _, rfl, Nat.zero_le _, rfl, .nil⟩

end AdminUsers
