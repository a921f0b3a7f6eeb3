import Hangang.Framework.Except
import Hangang.Framework.Framing

/-! # Stored Configuration Documents

    What every configuration store shares: documents with their revisions and
    authority epochs, operation stamps, retained receipts, and the rules that
    resolve a compare-and-swap from the durable state.

    The configuration itself is a type parameter. How it is serialized is `serde`'s
    business, and so a `Format`. Nothing is assumed about it: a document need not
    read back as the one that was written, since a number may be read as its
    neighbour. SHA-256 is part of the format, too. -/

open Bytes Except

namespace ConfigStore

inductive StoreError where
  /-- Nothing changed. -/
  | unavailable (message : String)
  /-- The durable content or the request is not usable. -/
  | invalid (message : String)
  /-- A mutation was sent and its outcome is unknown. -/
  | indeterminate (message : String)
  deriving DecidableEq, Repr

abbrev StoreResult (α : Type) : Type := Except StoreError α

structure Format (Config : Type) where
  revision : Config → Nat
  withRevision : Config → Nat → Config
  revision_withRevision : ∀ config r, revision (withRevision config r) = r
  /-- `Config::validate` and `ensure_reader_compatibility`. -/
  acceptable : Config → Bool
  serialize : Config → Bytes
  deserialize : Bytes → Option Config
  sha256 : Bytes → Bytes

structure Stored (Config : Type) where
  epoch : Bytes
  config : Config
  deriving DecidableEq, Repr

inductive CasResult (Config : Type) where
  | applied (stored : Stored Config)
  | conflict (current : Stored Config)
  deriving DecidableEq, Repr

/-! ## Encoding -/

def maxConfigBytes : Nat := 1024 * 1024

section encoding

variable {Config : Type} (f : Format Config)

def Format.encode (config : Config) : StoreResult Bytes := do
  ensure (f.acceptable config) (StoreError.invalid "configuration is not acceptable")
  ensure ((f.serialize config).length ≤ maxConfigBytes)
    (StoreError.invalid "configuration exceeds 1 MiB")
  .ok (f.serialize config)

def Format.decode (revision : Nat) (json : Bytes) : StoreResult Config := do
  ensure (json.length ≤ maxConfigBytes) (StoreError.invalid "stored configuration exceeds 1 MiB")
  match f.deserialize json with
  | none => .error (.invalid "decode stored configuration")
  | some config =>
    ensure (f.revision config = revision)
      (StoreError.invalid "stored revision does not match configuration JSON")
    ensure (f.acceptable config) (StoreError.invalid "configuration is not acceptable")
    .ok config

theorem Format.encode_eq_ok {f : Format Config} {config : Config} {json : Bytes} :
    f.encode config = .ok json ↔ f.acceptable config = true ∧
      (f.serialize config).length ≤ maxConfigBytes ∧ f.serialize config = json := by
  simp only [Format.encode, bind_eq_ok, ensure_eq_ok, Except.ok.injEq]
  constructor
  · rintro ⟨_, hacceptable, _, hlength, hjson⟩
    exact ⟨hacceptable, hlength, hjson⟩
  · rintro ⟨hacceptable, hlength, hjson⟩
    exact ⟨(), hacceptable, (), hlength, hjson⟩

/-- A document is stored at its own revision. -/
theorem Format.decode_revision {f : Format Config} {revision : Nat} {json : Bytes}
    {config : Config} (h : f.decode revision json = .ok config) :
    f.revision config = revision := by
  simp only [Format.decode, bind_eq_ok] at h
  obtain ⟨_, -, h⟩ := h
  split at h
  · cases h
  · simp only [bind_eq_ok, ensure_eq_ok] at h
    obtain ⟨_, hrevision, _, -, heq⟩ := h
    rw [← Except.ok.inj heq]
    exact hrevision

def nextRevision (expected : Nat) : StoreResult Nat :=
  if expected + 1 < 2 ^ 64 then .ok (expected + 1) else .error (.invalid "revision exhausted")

def revisionToI64 (revision : Nat) : StoreResult Unit :=
  ensure (revision < 2 ^ 63) (StoreError.invalid "revision exceeds SQL BIGINT")

theorem nextRevision_eq_ok {expected revision : Nat} (h : nextRevision expected = .ok revision) :
    revision = expected + 1 := by
  unfold nextRevision at h
  split at h
  · exact (Except.ok.inj h).symm
  · cases h

end encoding

/-! ## Identities -/

/-- `valid_hex`. -/
def validHex (value : Bytes) (len : Nat) : Bool :=
  value.length = len && value.all fun b => isAsciiDigit b || (97 ≤ b && b ≤ 102)

def epochLen : Nat := 32

/-- `check_epoch`. -/
def checkEpoch (epoch : Bytes) : StoreResult Unit :=
  ensure (validHex epoch epochLen)
    (StoreError.invalid "stored authority epoch is not 32 lowercase hex characters")

structure OperationStamp where
  authorityId : Bytes
  operationId : Bytes
  candidateSha256 : Bytes
  deriving DecidableEq, Repr

structure SequencedOperationStamp where
  authorityId : Bytes
  acceptanceSeq : Nat
  operationId : Bytes
  candidateSha256 : Bytes
  deriving DecidableEq, Repr

structure OperationProof where
  epoch : Bytes
  revision : Nat
  stamp : OperationStamp
  deriving DecidableEq, Repr

structure CommitReceipt where
  epoch : Bytes
  revision : Nat
  stamp : OperationStamp
  deriving DecidableEq, Repr

structure SequencedCommitReceipt where
  epoch : Bytes
  revision : Nat
  stamp : SequencedOperationStamp
  deriving DecidableEq, Repr

def maxAcceptanceSequence : Nat := 9007199254740991

def hexValue (b : UInt8) : UInt8 := if isAsciiDigit b then b - 48 else b - 87

/-- The bytes that pairs of digits spell. -/
def fromHex : Bytes → Bytes
  | high :: low :: rest => (hexValue high * 16 + hexValue low) :: fromHex rest
  | _ => []

section identities

variable {Config : Type} (f : Format Config)

def Format.sha256Hex (x : Bytes) : Bytes := lowerHex (f.sha256 x)

/-- `canonical_operation_id`: the sequence, then a checksum. -/
def canonicalOperationId (authorityId : Bytes) (seq : Nat) : StoreResult Bytes := do
  ensure (validHex authorityId 32 ∧ 1 ≤ seq ∧ seq ≤ maxAcceptanceSequence)
    (StoreError.invalid "invalid sequenced operation identity")
  let digest := f.sha256 (ascii "hangang-op-v2" ++ fromHex authorityId ++ beBytes 8 seq)
  .ok (lowerHex (beBytes 8 seq) ++ lowerHex (digest.take 8))

def validateSequencedStamp (stamp : SequencedOperationStamp) (encoded : Bytes) :
    StoreResult Unit := do
  let operationId ← canonicalOperationId f stamp.authorityId stamp.acceptanceSeq
  ensure (stamp.operationId = operationId ∧ validHex stamp.candidateSha256 64 ∧
    stamp.candidateSha256 = f.sha256Hex encoded)
    (StoreError.invalid "invalid sequenced operation stamp")

def validateOperationStamp (stamp : OperationStamp) (encoded : Bytes) : StoreResult Unit :=
  ensure (validHex stamp.authorityId 32 ∧ validHex stamp.operationId 32 ∧
    validHex stamp.candidateSha256 64 ∧ stamp.candidateSha256 = f.sha256Hex encoded)
    (StoreError.invalid "invalid operation stamp or candidate fingerprint")

def validateReceiptIds (authorityId operationId : Bytes) : StoreResult Unit :=
  ensure (validHex authorityId 32 ∧ validHex operationId 32)
    (StoreError.invalid "invalid commit receipt identity")

/-- `commit_receipt`: the columns of a retained receipt. -/
def commitReceipt (receipt : CommitReceipt) : StoreResult CommitReceipt := do
  validateReceiptIds receipt.stamp.authorityId receipt.stamp.operationId
  checkEpoch receipt.epoch
  ensure (receipt.revision ≠ 0 ∧ validHex receipt.stamp.candidateSha256 64)
    (StoreError.invalid "invalid stored commit receipt")
  .ok receipt

/-- `sequenced_receipt`: the columns of a retained sequenced receipt. -/
def sequencedReceipt (receipt : SequencedCommitReceipt) : StoreResult SequencedCommitReceipt := do
  let operationId ← canonicalOperationId f receipt.stamp.authorityId receipt.stamp.acceptanceSeq
  ensure (receipt.stamp.operationId = operationId ∧ validHex receipt.stamp.candidateSha256 64)
    (StoreError.invalid "invalid sequenced receipt")
  checkEpoch receipt.epoch
  ensure (receipt.revision ≠ 0) (StoreError.invalid "invalid sequenced receipt")
  .ok receipt

end identities

/-! ## The stamp of the current document -/

/-- The operation columns of the document's row. -/
structure OperationColumns where
  authorityId : Option Bytes
  operationId : Option Bytes
  revision : Option Nat
  sha256 : Option Bytes
  version : Option Nat
  sequence : Option Nat
  deriving DecidableEq, Repr

namespace OperationColumns

/-- All `NULL`. -/
def empty : OperationColumns := ⟨none, none, none, none, none, none⟩

/-- The columns as they are read: a text that is too long reads as `NULL`. -/
def read (columns : OperationColumns) : OperationColumns :=
  { columns with
    authorityId := columns.authorityId.filter fun text => text.length ≤ 32
    operationId := columns.operationId.filter fun text => text.length ≤ 32
    sha256 := columns.sha256.filter fun text => text.length ≤ 64 }

end OperationColumns

structure OperationMetadata where
  revision : Nat
  stamp : OperationStamp
  version : Nat
  sequence : Option Nat
  deriving DecidableEq, Repr

section metadata

variable {Config : Type} (f : Format Config)

/-- The version of a stamp and the sequence that goes with it. -/
def decodeVersion (stamp : OperationStamp) :
    Option Nat → Option Nat → StoreResult (Nat × Option Nat)
  | none, none | some 1, none => .ok (1, none)
  | some 2, some seq => do
    ensure (1 ≤ seq ∧ seq ≤ maxAcceptanceSequence)
      (StoreError.invalid "invalid stored operation version")
    let operationId ← canonicalOperationId f stamp.authorityId seq
    ensure (stamp.operationId = operationId)
      (StoreError.invalid "invalid stored sequenced identity")
    .ok (2, some seq)
  | _, _ => .error (.invalid "invalid stored operation version")

/-- `decode_operation_metadata`. -/
def decodeOperationMetadata (columns : OperationColumns) :
    StoreResult (Option OperationMetadata) :=
  match columns.authorityId, columns.operationId, columns.revision, columns.sha256 with
  | none, none, none, none =>
    if columns.version.isNone && columns.sequence.isNone then .ok none
    else .error (.invalid "invalid stored operation stamp")
  | some authorityId, some operationId, some revision, some sha256 => do
    ensure (validHex authorityId 32 ∧ validHex operationId 32 ∧ validHex sha256 64)
      (StoreError.invalid "invalid stored operation stamp")
    let stamp : OperationStamp := ⟨authorityId, operationId, sha256⟩
    let (version, sequence) ← decodeVersion f stamp columns.version columns.sequence
    .ok (some ⟨revision, stamp, version, sequence⟩)
  | _, _, _, _ => .error (.invalid "invalid stored operation stamp")

/-- A document as it is read together with its stamp. -/
structure Observed (Config : Type) where
  stored : Stored Config
  encoded : Bytes
  metadata : Option OperationMetadata

/-- `current_operation_proof`. -/
def currentOperationProof (current : Observed Config) : Option OperationProof :=
  current.metadata.bind fun metadata =>
    if metadata.revision = f.revision current.stored.config ∧
        metadata.stamp.candidateSha256 = f.sha256Hex current.encoded then
      some ⟨current.stored.epoch, metadata.revision, metadata.stamp⟩
    else none

/-- `current_v1_operation_proof`. -/
def currentV1OperationProof (current : Observed Config) : Option OperationProof :=
  if current.metadata.any fun metadata => metadata.version = 1 ∧ metadata.sequence = none then
    currentOperationProof f current
  else none

/-- `current_sequenced_proof`. -/
def currentSequencedProof (current : Observed Config) (stamp : SequencedOperationStamp) : Bool :=
  current.metadata.any fun metadata =>
    metadata.version = 2 ∧ metadata.sequence = some stamp.acceptanceSeq ∧
      metadata.revision = f.revision current.stored.config ∧
      metadata.stamp.authorityId = stamp.authorityId ∧
      metadata.stamp.operationId = stamp.operationId ∧
      metadata.stamp.candidateSha256 = stamp.candidateSha256 ∧
      stamp.candidateSha256 = f.sha256Hex current.encoded

variable [DecidableEq Config]

/-- `resolve_cas`. -/
def resolveCas (current : Stored Config) (epoch : Bytes) (next : Config) : CasResult Config :=
  if current.epoch = epoch ∧ current.config = next then .applied current else .conflict current

/-- `resolve_operation_cas`, for a document that was read. -/
def resolveOperationCasRead (current : Observed Config) (epoch : Bytes) (next : Config)
    (stamp : OperationStamp) (uncertain : Bool) : StoreResult (CasResult Config) :=
  let proof := currentV1OperationProof f current
  if current.metadata.any fun metadata => metadata.stamp.operationId = stamp.operationId then
    if current.stored.epoch = epoch ∧ current.stored.config = next ∧
        (proof.any fun proof => proof.stamp = stamp) then .ok (.applied current.stored)
    else if uncertain then
      .error (.indeterminate "operation CAS acknowledgement was lost and the current document cannot prove the same operation")
    else .error (.invalid "operation identifier reused with another candidate or precondition")
  else if uncertain then
    .error (.indeterminate "operation CAS acknowledgement was lost and the current document has no matching operation identity")
  else .ok (.conflict current.stored)

/-- `resolve_operation_cas`. -/
def resolveOperationCas (current : StoreResult (Option (Observed Config))) (epoch : Bytes)
    (next : Config) (stamp : OperationStamp) (uncertain : Bool) :
    StoreResult (CasResult Config) :=
  match current with
  | .ok (some value) => resolveOperationCasRead f value epoch next stamp uncertain
  | .ok none =>
    if uncertain then
      .error (.indeterminate "operation CAS outcome is not provable from an empty store")
    else .error (.invalid "configuration store is not initialized")
  | .error e =>
    if uncertain then .error (.indeterminate "operation CAS recovery read failed") else .error e

end metadata

/-! ## Retained receipts -/

def commitReceiptCapacity : Nat := 100000

def commitAuthorityCapacity : Nat := 4096

structure CommitReceiptObservation where
  receipt : Option CommitReceipt
  storedRecords : Nat
  writesAvailable : Bool
  deriving DecidableEq, Repr

/-- `receipt_observation`. -/
def receiptObservation (receipt : Option CommitReceipt) (storedRecords : Nat) :
    StoreResult CommitReceiptObservation := do
  ensure (storedRecords ≤ commitReceiptCapacity ∧ ¬ (receipt.isSome ∧ storedRecords = 0))
    (StoreError.invalid "invalid commit receipt count")
  .ok ⟨receipt, storedRecords, storedRecords < commitReceiptCapacity⟩

structure SequencedReceiptObservation where
  receipt : Option SequencedCommitReceipt
  highWater : Nat
  storedRecords : Nat
  registeredAuthorities : Nat
  writesAvailable : Bool
  deriving DecidableEq, Repr

/-- `sequenced_observation`. -/
def sequencedObservation (receipt : Option SequencedCommitReceipt) (highWater : Option Nat)
    (storedRecords registeredAuthorities : Nat) : StoreResult SequencedReceiptObservation := do
  let highWater := highWater.getD 0
  ensure (storedRecords ≤ commitReceiptCapacity ∧
    registeredAuthorities ≤ commitAuthorityCapacity ∧ highWater ≤ maxAcceptanceSequence ∧
    ¬ (receipt.isSome ∧ storedRecords = 0) ∧ ¬ (0 < highWater ∧ registeredAuthorities = 0) ∧
    ¬ (receipt.any fun entry => highWater < entry.stamp.acceptanceSeq))
    (StoreError.invalid "invalid sequenced receipt metadata")
  .ok ⟨receipt, highWater, storedRecords, registeredAuthorities,
    storedRecords < commitReceiptCapacity ∧
      (0 < highWater ∨ registeredAuthorities < commitAuthorityCapacity)⟩

theorem sequencedObservation_eq_ok {receipt : Option SequencedCommitReceipt}
    {highWater : Option Nat} {storedRecords registeredAuthorities : Nat}
    {observation : SequencedReceiptObservation}
    (h : sequencedObservation receipt highWater storedRecords registeredAuthorities =
      .ok observation) :
    observation.receipt = receipt ∧ observation.highWater = highWater.getD 0 ∧
      (observation.writesAvailable = true → storedRecords < commitReceiptCapacity) := by
  simp only [sequencedObservation, bind_eq_ok, Except.ok.injEq] at h
  obtain ⟨_, -, rfl⟩ := h
  exact ⟨rfl, rfl, fun h => (of_decide_eq_true h).1⟩

/-! ## Notes as documents -/

def readNote : Bytes → Option (Nat × Bytes)
  | [] => none
  | b :: rest => if b = 0 then some (0, rest) else (readNote rest).map fun note => (note.1 + 1, note.2)

/-- Notes with a revision, which is written in unary before the text. -/
def noteFormat : Format (Nat × Bytes) where
  revision := Prod.fst
  withRevision note revision := (revision, note.2)
  revision_withRevision _ _ := rfl
  acceptable _ := true
  serialize note := List.replicate note.1 1 ++ 0 :: note.2
  deserialize := readNote
  sha256 x := List.replicate 31 0 ++ [x.foldl (· + ·) 0]

def noteEpoch : Bytes := List.replicate 32 48

end ConfigStore
