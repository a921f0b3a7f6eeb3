import Hangang.ConfigStore.Tables
import Hangang.Framework.Remote

/-! # The PostgreSQL Store

    The compare-and-swaps of `PostgresConfigStore`. Each sends one guarded statement, on
    a second connection once more if the first attempt failed, and reads the durable
    state back when the statement changed nothing. PostgreSQL executes a statement
    atomically; whether its answer arrives is not up to it. -/

open Bytes Except Remote

namespace ConfigStore

/-- Calls that may fail and that talk to PostgreSQL. -/
abbrev Postgres (α : Type) : Type := ExceptT StoreError (Program Db StoreError) α

namespace Postgres

/-- A computation that sends nothing. -/
def lift {α : Type} (result : StoreResult α) : Postgres α := ExceptT.mk (pure result)

/-- The result of a call that is looked at instead of returned. -/
def observe {α : Type} (call : Postgres α) : Postgres (StoreResult α) := ExceptT.lift call.run

end Postgres

open Postgres

/-! ## Attempts -/

inductive Access where
  | read
  | mutation
  deriving DecidableEq, Repr

/-- The value of a statement, and whether an earlier attempt of it was never answered. -/
structure Attempted (α : Type) where
  value : α
  uncertain : Bool

/-- The retry of a statement whose first attempt failed. -/
inductive Retry (α : Type) where
  | sent (reply : Reply α)
  /-- Reconnecting failed; nothing was sent again. -/
  | unsent

/-- `PostgresFailure`. -/
structure PostgresFailure where
  message : String
  answered : Bool

/-- `postgres_timeout`. -/
def postgresTimeout {α : Type} : Reply α → Except PostgresFailure α
  | .answered value => .ok value
  | .rejected => .error ⟨"PostgreSQL configuration store operation failed", true⟩
  | .unanswered false => .error ⟨"PostgreSQL configuration store operation failed", false⟩
  | .unanswered true => .error ⟨"PostgreSQL configuration store operation timed out", false⟩

/-- Classifies two attempts of one statement. -/
def settle {α : Type} (access : Access) (first : PostgresFailure) (retry : Retry α) :
    StoreResult (Attempted α) :=
  let uncertain : Bool := access = .mutation && !first.answered
  let failed (unansweredRetry : Bool) : StoreResult (Attempted α) :=
    if uncertain || unansweredRetry then .error (.indeterminate first.message)
    else .error (.unavailable first.message)
  match retry with
  | .sent reply =>
    match postgresTimeout reply with
    | .ok value => .ok ⟨value, uncertain⟩
    | .error second => failed (access = .mutation && !second.answered)
  | .unsent => failed false

/-- `client`: any of the steps of connecting may fail. -/
def client : Postgres Unit := do
  match ← ExceptT.lift connect with
  | none => return ()
  | some e => throw e

/-- Runs a statement, retrying once on a fresh connection. -/
def run {α : Type} (access : Access) (statement : Program Db StoreError (Reply α)) :
    Postgres (Attempted α) := do
  client
  match postgresTimeout (← ExceptT.lift statement) with
  | .ok value => return ⟨value, false⟩
  | .error first =>
    match ← ExceptT.lift connect with
    | none => lift (settle access first (.sent (← ExceptT.lift statement)))
    | some _ => lift (settle access first .unsent)

/-- `query_opt` of a `SELECT`. -/
def queryOpt : Postgres Db := do
  let attempted ← run .read read
  return attempted.value

/-- `execute` of a statement that changes something. -/
def execute (s : Statement Db) : Postgres Bool := do
  let attempted ← run .mutation (write s)
  return attempted.value

/-! ## Reading the document -/

section reads

variable {Config : Type} (f : Format Config) (fresh : Bytes)

/-- The columns of the document's row. -/
def postgresRow (db : Db) : StoreResult (Option Row) :=
  match db.row with
  | none => .ok none
  | some row => do
    ensure (row.json.length ≤ maxConfigBytes)
      (StoreError.invalid "stored PostgreSQL configuration exceeds 1 MiB")
    ensure (row.epoch.length ≤ epochLen)
      (StoreError.invalid "stored PostgreSQL authority epoch exceeds 32 bytes")
    .ok (some row)

/-- The guarded update that gives a document its epoch. -/
def upgradeStatement : Statement Db where
  exec db := some (upgradeEpoch db fresh, db.row.any fun row => row.epoch = [])
  counted := false

/-- `load_stored`, with the epoch that is drawn for a document without one. -/
def loadStored : Postgres (Option (Stored Config)) := do
  match ← lift (postgresRow (← queryOpt)) with
  | none => return none
  | some row =>
    if row.epoch = [] then
      let _ ← execute (upgradeStatement fresh)
      match ← lift (postgresRow (← queryOpt)) with
      | none => throw (.invalid "PostgreSQL document vanished during epoch upgrade")
      | some row => some <$> lift (decodeRow f row)
    else some <$> lift (decodeRow f row)

/-- The stamp of a row, if it has one. -/
def rowMetadata (row : Row) : StoreResult (Option OperationMetadata) :=
  if row.operation = .empty then .ok none
  else do
    match ← decodeOperationMetadata f row.operation.read with
    | none => .error (.invalid "invalid stored operation stamp")
    | some metadata => .ok (some metadata)

/-- The document and its stamp, from one row. -/
def observeRow (row : Row) : StoreResult (Observed Config) := do
  checkEpoch row.epoch
  let metadata ← rowMetadata f row
  let config ← f.decode row.revision row.json
  .ok ⟨⟨row.epoch, config⟩, row.json, metadata⟩

/-- `load_stored_with_proof`. -/
def loadStoredWithProof : Postgres (Option (Observed Config)) := do
  let _ ← loadStored f fresh
  match ← lift (postgresRow (← queryOpt)) with
  | none => return none
  | some row => some <$> lift (observeRow f row)

/-- `receipt_observation`. -/
def postgresReceiptObservation (authorityId operationId : Bytes) :
    Postgres CommitReceiptObservation := do
  lift (validateReceiptIds authorityId operationId)
  lift (sqliteReceiptObservation (← queryOpt) authorityId operationId)

/-- `sequenced_observation`. -/
def postgresSequencedObservation (authorityId : Bytes) (seq : Nat) :
    Postgres SequencedReceiptObservation := do
  lift (sqliteSequencedObservation f (← queryOpt) authorityId seq)

end reads

/-! ## The guarded statements -/

section statements

variable (epoch : Bytes) (expected revision : Nat) (encoded : Bytes)

/-- The update of `compare_and_swap`. -/
def casStatement : Statement Db where
  exec db :=
    match updateRow db expected epoch (fun _ => true) revision encoded .empty with
    | none => some (db, false)
    | some db => some (db, true)
  counted := true

/-- The statement of `compare_and_swap_operation`: the update, the receipt and the
    count, or nothing. -/
def operationStatement (stamp : OperationStamp) : Statement Db where
  exec db :=
    match updateRow db expected epoch
        (fun row => (row.operation.operationId.all fun id => id ≠ stamp.operationId) ∧
          (∀ receipt ∈ db.commitReceipts, ¬ (receipt.stamp.authorityId = stamp.authorityId ∧
            receipt.stamp.operationId = stamp.operationId)) ∧
          db.storedRecords < commitReceiptCapacity)
        revision encoded
        ⟨some stamp.authorityId, some stamp.operationId, some revision,
          some stamp.candidateSha256, some 1, none⟩ with
    | none => some (db, false)
    | some db =>
      match insertCommitReceipt db ⟨epoch, revision, stamp⟩ with
      | .error _ => none
      | .ok db => some ({ db with storedRecords := db.storedRecords + 1 }, true)
  counted := true

/-- `hangang_cas_v2`. -/
def hangangCasV2 (stamp : SequencedOperationStamp) : Statement Db where
  exec db :=
    if stamp.acceptanceSeq ≤ 0 ∨ maxAcceptanceSequence < stamp.acceptanceSeq then none
    else
      match updateRow db expected epoch
          (fun _ => (findReceipt db stamp.authorityId stamp.acceptanceSeq).isNone ∧
            ((db.authorities.lookup stamp.authorityId).map Authority.highWater).getD 0 <
              stamp.acceptanceSeq ∧
            db.storedRecords < commitReceiptCapacity)
          revision encoded
          ⟨some stamp.authorityId, some stamp.operationId, some revision,
            some stamp.candidateSha256, some 2, some stamp.acceptanceSeq⟩ with
      | none => some (db, false)
      | some db =>
        if (db.authorities.lookup stamp.authorityId).isNone ∧
            commitAuthorityCapacity ≤ db.authorities.size then none
        else
          match insertSequencedReceipt db ⟨epoch, revision, stamp⟩ with
          | .error _ => none
          | .ok db =>
            let (db, raised) := raiseHighWater db stamp.authorityId stamp.acceptanceSeq
            let (db, counted) := countRecord db
            if raised && counted then some (db, true) else none
  counted := true

end statements

/-! ## The compare-and-swaps -/

section calls

variable {Config : Type} [DecidableEq Config] (f : Format Config) (fresh : Bytes)
  (epoch : Bytes) (expected : Nat) (next : Config)

def text (x : Bytes) : String := String.ofList (x.map fun b => Char.ofNat b.toNat)

/-- Resolves a guarded update that changed no row. -/
def resolveUnchangedCas (current : StoreResult (Option (Stored Config))) (epoch : Bytes)
    (next : Config) (uncertain : Bool) : StoreResult (CasResult Config) :=
  match current with
  | .ok none =>
    if uncertain then
      .error (.indeterminate "the write was not acknowledged and the store is empty now")
    else .error (.invalid "PostgreSQL configuration store is not initialized")
  | .error e =>
    if uncertain then
      .error (.indeterminate "the write was not acknowledged and re-reading the store failed")
    else .error e
  | .ok (some current) =>
    match resolveCas current epoch next with
    | .applied stored => .ok (.applied stored)
    | .conflict current =>
      if uncertain then
        .error (.indeterminate ("the write of revision " ++ toString (f.revision next) ++
          " was not acknowledged and the durable state (epoch " ++ text current.epoch ++
          ", revision " ++ toString (f.revision current.config) ++ ") cannot prove its outcome"))
      else .ok (.conflict current)

/-- `receipt_recovery_read`. -/
def receiptRecoveryRead {α : Type} (read : StoreResult α) (uncertain : Bool) : StoreResult α :=
  match read with
  | .ok value => .ok value
  | .error e =>
    if uncertain then .error (.indeterminate "operation CAS recovery current read failed")
    else .error e

/-- `compare_and_swap`. -/
def postgresCompareAndSwap : Postgres (CasResult Config) := do
  let revision ← lift (nextRevision expected)
  let next := f.withRevision next revision
  let encoded ← lift (f.encode next)
  lift (revisionToI64 revision)
  lift (revisionToI64 expected)
  let attempted ← run .mutation (write (casStatement epoch expected revision encoded))
  if attempted.value then return .applied ⟨epoch, next⟩
  else
    let current ← observe (loadStored f fresh)
    lift (resolveUnchangedCas f current epoch next attempted.uncertain)

/-- Whether the update was refused because no more receipts fit: looked at only when
    that is the question. -/
def capacityExhausted (full : Bool) : Postgres Bool :=
  if full then do
    let current ← loadStoredWithProof f fresh
    return current.any fun current =>
      current.stored.epoch = epoch ∧ f.revision current.stored.config = expected
  else return false

/-- `compare_and_swap_operation`. -/
def postgresCompareAndSwapOperation (stamp : OperationStamp) : Postgres (CasResult Config) := do
  lift (checkEpoch epoch)
  let revision ← lift (nextRevision expected)
  let next := f.withRevision next revision
  let encoded ← lift (f.encode next)
  lift (validateOperationStamp f stamp encoded)
  lift (revisionToI64 revision)
  lift (revisionToI64 expected)
  let attempted ← run .mutation (write (operationStatement epoch expected revision encoded stamp))
  let uncertain := attempted.uncertain
  if attempted.value then return .applied ⟨epoch, next⟩
  else
    match ← observe (postgresReceiptObservation stamp.authorityId stamp.operationId) with
    | .error e =>
      if uncertain then
        throw (.indeterminate "operation CAS recovery receipt read failed")
      else throw e
    | .ok history =>
      match history.receipt with
      | some receipt =>
        if receipt.epoch ≠ epoch ∨ receipt.revision ≠ revision ∨ receipt.stamp ≠ stamp then
          if uncertain then
            throw (.indeterminate
              "operation CAS outcome is not provable after an unanswered attempt")
          else
            throw (.invalid "operation identifier reused with another candidate or precondition")
        else
          let read ← observe (loadStoredWithProof f fresh)
          match ← lift (receiptRecoveryRead read uncertain) with
          | some current =>
            if current.stored.epoch = epoch ∧ current.stored.config = next ∧
                ((currentV1OperationProof f current).any fun proof => proof.stamp = stamp) then
              return .applied current.stored
            else if uncertain then
              throw (.indeterminate
                "operation CAS committed historically but current document changed")
            else return .conflict current.stored
          | none =>
            throw (.indeterminate
              "operation CAS receipt exists but current configuration is absent")
      | none =>
        let full ← capacityExhausted f fresh epoch expected (!history.writesAvailable && !uncertain)
        if full then throw (.unavailable "retained commit receipt capacity exhausted")
        else
          let current ← observe (loadStoredWithProof f fresh)
          lift (resolveOperationCas f current epoch next stamp uncertain)

/-- `compare_and_swap_operation_v2`. -/
def postgresCompareAndSwapOperationV2 (stamp : SequencedOperationStamp) :
    Postgres (CasResult Config) := do
  lift (checkEpoch epoch)
  let revision ← lift (nextRevision expected)
  let next := f.withRevision next revision
  let encoded ← lift (f.encode next)
  lift (validateSequencedStamp f stamp encoded)
  lift (revisionToI64 revision)
  lift (revisionToI64 expected)
  let attempted ← run .mutation (write (hangangCasV2 epoch expected revision encoded stamp))
  let uncertain := attempted.uncertain
  if attempted.value then return .applied ⟨epoch, next⟩
  else
    match ← observe (postgresSequencedObservation f stamp.authorityId stamp.acceptanceSeq) with
    | .error e =>
      if uncertain then throw (.indeterminate "sequenced CAS receipt recovery failed")
      else throw e
    | .ok observation =>
      match observation.receipt with
      | some receipt =>
        if receipt.epoch ≠ epoch ∨ receipt.revision ≠ revision ∨ receipt.stamp ≠ stamp then
          if uncertain then
            throw (.indeterminate "sequenced CAS unanswered and identity differs")
          else throw (.invalid "sequenced operation identity reused")
        else
          let read ← observe (loadStoredWithProof f fresh)
          match ← lift (receiptRecoveryRead read uncertain) with
          | some current =>
            if current.stored.epoch = epoch ∧ current.stored.config = next ∧
                currentSequencedProof f current stamp then return .applied current.stored
            else if uncertain then
              throw (.indeterminate
                "sequenced CAS committed historically but current document changed")
            else return .conflict current.stored
          | none =>
            throw (.indeterminate "sequenced receipt exists but current configuration is absent")
      | none =>
        let read ← observe (loadStoredWithProof f fresh)
        match ← lift (receiptRecoveryRead read uncertain) with
        | none => throw (.indeterminate "sequenced CAS current configuration is absent")
        | some current =>
          if uncertain then throw (.indeterminate "sequenced CAS outcome is not provable")
          else if current.stored.epoch = epoch ∧ f.revision current.stored.config = expected ∧
              !observation.writesAvailable then
            throw (.unavailable "sequenced receipt or authority capacity exhausted")
          else return .conflict current.stored

/-- The three kinds of compare-and-swaps. -/
inductive Cas where
  | plain
  | operation (stamp : OperationStamp)
  | sequenced (stamp : SequencedOperationStamp)

/-- A compare-and-swap of any kind. -/
def postgresCas : Cas → Postgres (CasResult Config)
  | .plain => postgresCompareAndSwap f fresh epoch expected next
  | .operation stamp => postgresCompareAndSwapOperation f fresh epoch expected next stamp
  | .sequenced stamp => postgresCompareAndSwapOperationV2 f fresh epoch expected next stamp

end calls

end ConfigStore
