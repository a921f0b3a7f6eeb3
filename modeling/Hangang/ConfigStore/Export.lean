import Hangang.ConfigStore.Releases
import Hangang.Framework.Paging

/-! # Exporting Receipts

    The receipts of an authority are read page by page, while others commit and release. The
    first page fixes a snapshot, and the pages after it read up to its mark only. New receipts
    are above the mark, so what is left to read behind a cursor never changes. -/

open Bytes Except Paging

namespace ConfigStore

def sequencedReceiptPageLimit : Nat := 100

structure SequencedReceiptSnapshot where
  highWater : Nat
  retentionGeneration : Nat
  deriving DecidableEq, Repr

structure SequencedReceiptPage where
  receipts : List SequencedCommitReceipt
  snapshot : SequencedReceiptSnapshot
  nextAfter : Nat
  hasMore : Bool
  deriving DecidableEq, Repr

inductive SequencedReceiptPageResult where
  | page (page : SequencedReceiptPage)
  | snapshotChanged
  deriving DecidableEq, Repr

/-! ## One page -/

def validateSequencedExportRequest (authorityId : Bytes) (afterSeq : Nat)
    (snapshot : Option SequencedReceiptSnapshot) (limit : Nat) : StoreResult Unit :=
  ensure (validHex authorityId 32 ∧ 1 ≤ limit ∧ limit ≤ sequencedReceiptPageLimit ∧
    afterSeq ≤ maxAcceptanceSequence ∧ ¬ (afterSeq ≠ 0 ∧ snapshot = none) ∧
    ∀ s ∈ snapshot, s.highWater ≤ maxAcceptanceSequence ∧
      s.retentionGeneration ≤ maxAcceptanceSequence ∧ afterSeq ≤ s.highWater)
    (StoreError.invalid "invalid sequenced receipt export cursor")

/-- The mark and the generation of an authority; both are there or none is. -/
def exportAuthority : Option Nat → Option Nat → StoreResult SequencedReceiptSnapshot
  | none, none => .ok ⟨0, 0⟩
  | some highWater, some retentionGeneration => .ok ⟨highWater, retentionGeneration⟩
  | _, _ => .error (.invalid "invalid receipt export authority")

/-- `sequenced_export_snapshot`. -/
def sequencedExportSnapshot (highWater retentionGeneration : Option Nat)
    (requested : Option SequencedReceiptSnapshot) :
    StoreResult (Option SequencedReceiptSnapshot) := do
  let current ← exportAuthority highWater retentionGeneration
  ensure (current.highWater ≤ maxAcceptanceSequence ∧
    current.retentionGeneration ≤ maxAcceptanceSequence)
    (StoreError.invalid "invalid receipt export boundary")
  match requested with
  | none => .ok (some current)
  | some requested =>
    if current.highWater < requested.highWater ∨
        requested.retentionGeneration ≠ current.retentionGeneration then .ok none
    else .ok (some requested)

/-- The loop of `sequenced_export_page` over the rows. -/
def checkSequence (authorityId : Bytes) (highWater : Nat) :
    Nat → List SequencedCommitReceipt → StoreResult Unit
  | _, [] => .ok ()
  | previous, receipt :: receipts => do
    ensure (receipt.stamp.authorityId = authorityId ∧ previous < receipt.stamp.acceptanceSeq ∧
      receipt.stamp.acceptanceSeq ≤ highWater)
      (StoreError.invalid "invalid receipt export sequence")
    checkSequence authorityId highWater receipt.stamp.acceptanceSeq receipts

def SequencedCommitReceipt.seq (receipt : SequencedCommitReceipt) : Nat :=
  receipt.stamp.acceptanceSeq

/-- `sequenced_export_page`. -/
def sequencedExportPage (authorityId : Bytes) (afterSeq : Nat)
    (snapshot : SequencedReceiptSnapshot) (limit : Nat) (receipts : List SequencedCommitReceipt) :
    StoreResult SequencedReceiptPageResult := do
  checkSequence authorityId snapshot.highWater afterSeq receipts
  let page := receipts.take limit
  .ok (.page ⟨page, snapshot, cursor SequencedCommitReceipt.seq afterSeq page,
    limit < receipts.length⟩)

/-- The rows of the query, in the order of their sequences. -/
def selectReceipts (db : Db) (authorityId : Bytes) (after fence rowLimit : Nat) :
    List SequencedCommitReceipt :=
  (((db.sequencedReceipts.map RetainedReceipt.receipt).filter fun receipt =>
    receipt.stamp.authorityId = authorityId ∧ after < receipt.seq ∧
      receipt.seq ≤ fence).mergeSort fun a b => a.seq ≤ b.seq).take rowLimit

section calls

variable {Config : Type} (f : Format Config)

/-- A row of the query is decoded. -/
def readReceipt (receipt : SequencedCommitReceipt) : StoreResult SequencedCommitReceipt := do
  ensure (receiptFits receipt) (StoreError.invalid "invalid sequenced receipt")
  sequencedReceipt f receipt

/-- `list_commit_receipts_v2`. -/
def listCommitReceiptsV2 (db : Db) (authorityId : Bytes) (afterSeq : Nat)
    (snapshot : Option SequencedReceiptSnapshot) (limit : Nat) :
    StoreResult SequencedReceiptPageResult := do
  validateSequencedExportRequest authorityId afterSeq snapshot limit
  let authority := db.authorities.lookup authorityId
  match ← sequencedExportSnapshot (authority.map Authority.highWater)
      (authority.map Authority.retentionGeneration) snapshot with
  | none => .ok .snapshotChanged
  | some snapshot =>
    let receipts ←
      (selectReceipts db authorityId afterSeq snapshot.highWater (limit + 1)).mapM (readReceipt f)
    sequencedExportPage authorityId afterSeq snapshot limit receipts

/-! ## A walk over the pages -/

/-- How far a walk over the pages has come. -/
inductive Walk where
  | finished (receipts : List SequencedCommitReceipt) (snapshot : SequencedReceiptSnapshot)
  | unfinished (receipts : List SequencedCommitReceipt)
  | snapshotChanged
  | failed (error : StoreError)

def Walk.behind (receipts : List SequencedCommitReceipt) : Walk → Walk
  | .finished more snapshot => .finished (receipts ++ more) snapshot
  | .unfinished more => .unfinished (receipts ++ more)
  | .snapshotChanged => .snapshotChanged
  | .failed e => .failed e

variable [DecidableEq Config]

/-- Follows `next_after` with the snapshot of the first page. Each turn has the limit of its
    page and what happens in the store before the next one. -/
def walk (authorityId : Bytes) :
    Db → Nat → Option SequencedReceiptSnapshot → List (Nat × List (Event Config)) → Walk
  | _, _, _, [] => .unfinished []
  | db, afterSeq, snapshot, (limit, events) :: turns =>
    match listCommitReceiptsV2 f db authorityId afterSeq snapshot limit with
    | .error e => .failed e
    | .ok .snapshotChanged => .snapshotChanged
    | .ok (.page page) =>
      if page.hasMore then
        (walk authorityId (((sqlite f).run db events).getD db) page.nextAfter (some page.snapshot)
          turns).behind page.receipts
      else .finished page.receipts page.snapshot

end calls

/-! ## What can be exported -/

variable {Config : Type} {f : Format Config} {db db' : Db}

/-- The receipts in the order in which they were committed. -/
def Db.receipts (db : Db) : List SequencedCommitReceipt :=
  db.sequencedReceipts.map RetainedReceipt.receipt

/-- The receipts of an authority up to a mark. -/
def Db.upTo (db : Db) (authorityId : Bytes) (fence : Nat) : List SequencedCommitReceipt :=
  db.receipts.filter fun receipt =>
    receipt.stamp.authorityId = authorityId ∧ receipt.seq ≤ fence

theorem length_of_validHex {x : Bytes} {n : Nat} (h : validHex x n = true) : x.length = n := by
  unfold validHex at h
  exact of_decide_eq_true (Bool.and_eq_true_iff.mp h).1

variable {receipt : SequencedCommitReceipt}

/-- What a valid receipt is. -/
theorem sequencedReceipt_eq_ok (h : sequencedReceipt f receipt = .ok receipt) :
    receiptFits receipt ∧ receipt.seq ≤ maxAcceptanceSequence ∧ 0 < receipt.seq := by
  simp only [sequencedReceipt, bind_eq_ok, canonicalOperationId] at h
  obtain ⟨operationId, ⟨_, hidentity, hoperation⟩, _, hid, _, hepoch, _, -, -⟩ := h
  obtain ⟨hauthority, hpos, hmax⟩ := ensure_eq_ok.mp hidentity
  obtain ⟨heq, hsha⟩ := ensure_eq_ok.mp hid
  refine ⟨⟨?_, ?_, ?_, ?_⟩, hmax, hpos⟩
  · exact Nat.le_of_eq (length_of_validHex hauthority)
  · rw [heq, ← Except.ok.inj hoperation, List.length_append, length_lowerHex, length_lowerHex,
      length_beBytes, List.length_take]
    omega
  · exact Nat.le_of_eq (length_of_validHex (ensure_eq_ok.mp hepoch))
  · exact Nat.le_of_eq (length_of_validHex hsha)

/-- The receipts are valid, those of one authority ascend, and no generation has begun. -/
structure Exportable (f : Format Config) (db : Db) : Prop where
  consistent : Consistent db
  valid : ∀ receipt ∈ db.receipts, sequencedReceipt f receipt = .ok receipt
  ascending : db.receipts.Pairwise fun a b =>
    a.stamp.authorityId = b.stamp.authorityId → a.seq < b.seq
  generation : ∀ authorityId authority, db.authorities.lookup authorityId = some authority →
    authority.retentionGeneration = 0

/-! ## A page of what is left -/

theorem checkSequence_eq_ok {authorityId : Bytes} {highWater previous : Nat}
    {receipts : List SequencedCommitReceipt}
    (hsorted : receipts.Pairwise fun a b => a.seq < b.seq)
    (h : ∀ receipt ∈ receipts, receipt.stamp.authorityId = authorityId ∧ previous < receipt.seq ∧
      receipt.seq ≤ highWater) :
    checkSequence authorityId highWater previous receipts = .ok () := by
  induction receipts generalizing previous with
  | nil => rfl
  | cons receipt receipts ih =>
    rw [List.pairwise_cons] at hsorted
    rw [checkSequence, bind_eq_ok]
    refine ⟨(), ensure_eq_ok.mpr (h receipt List.mem_cons_self), ih hsorted.2 ?_⟩
    intro other hother
    obtain ⟨hauthority, -, hle⟩ := h other (List.mem_cons_of_mem _ hother)
    exact ⟨hauthority, hsorted.1 other hother, hle⟩

variable {authorityId : Bytes} {fence after limit : Nat}

theorem mem_upTo :
    receipt ∈ db.upTo authorityId fence ↔
      receipt ∈ db.receipts ∧ receipt.stamp.authorityId = authorityId ∧ receipt.seq ≤ fence := by
  unfold Db.upTo
  rw [List.mem_filter, decide_eq_true_iff]

theorem Exportable.pairwise_upTo (h : Exportable f db) (authorityId : Bytes) (fence : Nat) :
    (db.upTo authorityId fence).Pairwise fun a b => a.seq < b.seq := by
  have hfilter : (db.upTo authorityId fence).Pairwise fun a b =>
      a.stamp.authorityId = b.stamp.authorityId → a.seq < b.seq := h.ascending.filter _
  refine hfilter.imp_of_mem fun {a b} ha hb hlt => hlt ?_
  rw [(mem_upTo.mp ha).2.1, (mem_upTo.mp hb).2.1]

/-- The query returns the rows that are left, in their order. -/
theorem Exportable.selectReceipts_eq (h : Exportable f db) (authorityId : Bytes)
    (after fence rowLimit : Nat) :
    selectReceipts db authorityId after fence rowLimit =
      (behind SequencedCommitReceipt.seq after (db.upTo authorityId fence)).take rowLimit := by
  have hfilter : (db.sequencedReceipts.map RetainedReceipt.receipt).filter (fun receipt =>
      receipt.stamp.authorityId = authorityId ∧ after < receipt.seq ∧ receipt.seq ≤ fence) =
      behind SequencedCommitReceipt.seq after (db.upTo authorityId fence) := by
    unfold behind Db.upTo Db.receipts
    rw [List.filter_filter]
    apply List.filter_congr
    intro receipt _
    rw [← Bool.decide_and, decide_eq_decide]
    exact ⟨fun ⟨hauthority, hlt, hle⟩ => ⟨hlt, hauthority, hle⟩, fun ⟨hlt, hauthority, hle⟩ =>
      ⟨hauthority, hlt, hle⟩⟩
  rw [selectReceipts, hfilter, mergeSort_behind (h.pairwise_upTo authorityId fence)]

/-- The mark of an authority is at most the largest sequence there is. -/
theorem Exportable.highWater_le (h : Exportable f db) (authorityId : Bytes) :
    db.highWater authorityId ≤ maxAcceptanceSequence := by
  unfold Db.highWater
  cases hlookup : db.authorities.lookup authorityId with
  | none => exact Nat.zero_le _
  | some authority =>
    obtain ⟨receipt, hmem, -, hseq⟩ := (h.consistent.marked authorityId authority hlookup).1
    show authority.highWater ≤ _
    rw [← hseq]
    exact (sequencedReceipt_eq_ok (h.valid receipt hmem)).2.1

/-- A request for the page behind a cursor, at a mark that the store has given. -/
structure Asks (db : Db) (authorityId : Bytes) (after : Nat)
    (requested : Option SequencedReceiptSnapshot) (fence : Nat) : Prop where
  validId : validHex authorityId 32 = true
  after_le : after ≤ fence
  fence_le : fence ≤ db.highWater authorityId
  snapshot : requested = some ⟨fence, 0⟩ ∨
    requested = none ∧ after = 0 ∧ fence = db.highWater authorityId

/-- The snapshot that is read. -/
theorem Asks.sequencedExportSnapshot_eq (h : Exportable f db)
    {requested : Option SequencedReceiptSnapshot}
    (hasks : Asks db authorityId after requested fence) :
    sequencedExportSnapshot ((db.authorities.lookup authorityId).map Authority.highWater)
      ((db.authorities.lookup authorityId).map Authority.retentionGeneration) requested =
      .ok (some ⟨fence, 0⟩) := by
  have hcurrent : exportAuthority
      ((db.authorities.lookup authorityId).map Authority.highWater)
      ((db.authorities.lookup authorityId).map Authority.retentionGeneration) =
      .ok ⟨db.highWater authorityId, 0⟩ := by
    unfold Db.highWater
    cases hlookup : db.authorities.lookup authorityId with
    | none => rfl
    | some authority =>
      rw [Option.map_some, Option.map_some, h.generation authorityId authority hlookup]
      rfl
  have hbound : ensure (db.highWater authorityId ≤ maxAcceptanceSequence ∧
      0 ≤ maxAcceptanceSequence) (StoreError.invalid "invalid receipt export boundary") =
      .ok () := ensure_eq_ok.mpr ⟨h.highWater_le authorityId, Nat.zero_le _⟩
  unfold sequencedExportSnapshot
  rw [hcurrent, ok_bind]
  dsimp only
  rw [hbound, ok_bind]
  rcases hasks.snapshot with rfl | ⟨rfl, -, hfence⟩
  · have hkeep : ¬ (db.highWater authorityId < fence ∨ (0 : Nat) ≠ 0) := by
      have hle := hasks.fence_le
      omega
    exact if_neg hkeep
  · rw [hfence]

/-- **One page**: the first rows that are left, and whether there are more. -/
theorem Asks.listCommitReceiptsV2_eq (h : Exportable f db)
    {requested : Option SequencedReceiptSnapshot}
    (hasks : Asks db authorityId after requested fence)
    (hlimit : 1 ≤ limit ∧ limit ≤ sequencedReceiptPageLimit) :
    listCommitReceiptsV2 f db authorityId after requested limit =
      .ok (.page ⟨(behind SequencedCommitReceipt.seq after (db.upTo authorityId fence)).take limit,
        ⟨fence, 0⟩, cursor SequencedCommitReceipt.seq after
          ((behind SequencedCommitReceipt.seq after (db.upTo authorityId fence)).take limit),
        limit < (behind SequencedCommitReceipt.seq after (db.upTo authorityId fence)).length⟩) := by
  have hmax := Nat.le_trans hasks.fence_le (h.highWater_le authorityId)
  -- the request passes its checks
  have hrequest : validateSequencedExportRequest authorityId after requested limit = .ok () := by
    refine ensure_eq_ok.mpr ⟨hasks.validId, hlimit.1, hlimit.2, Nat.le_trans hasks.after_le hmax,
      ?_, ?_⟩
    · rintro ⟨hne, hnone⟩
      rcases hasks.snapshot with rfl | ⟨-, hzero, -⟩
      · cases hnone
      · exact hne hzero
    · intro s hs
      rcases hasks.snapshot with rfl | ⟨rfl, -, -⟩
      · obtain rfl := Option.some.inj hs
        exact ⟨hmax, Nat.zero_le _, hasks.after_le⟩
      · cases hs
  have hleft := h.pairwise_upTo authorityId fence
  have hbehind : ∀ receipt ∈ behind SequencedCommitReceipt.seq after (db.upTo authorityId fence),
      receipt ∈ db.receipts ∧ receipt.stamp.authorityId = authorityId ∧ after < receipt.seq ∧
        receipt.seq ≤ fence := by
    intro receipt hmem
    obtain ⟨hreceipt, hauthority, hle⟩ := mem_upTo.mp (List.mem_of_mem_filter hmem)
    exact ⟨hreceipt, hauthority, lt_key_of_mem_behind hmem, hle⟩
  have hsorted : (behind SequencedCommitReceipt.seq after (db.upTo authorityId fence)).Pairwise
      fun a b => a.seq < b.seq := hleft.filter _
  unfold listCommitReceiptsV2
  rw [hrequest, ok_bind]
  dsimp only
  rw [hasks.sequencedExportSnapshot_eq h, ok_bind]
  dsimp only
  rw [h.selectReceipts_eq]
  -- from here on only the order and the bounds of the rows count
  generalize behind SequencedCommitReceipt.seq after (db.upTo authorityId fence) = left
    at hbehind hsorted ⊢
  have hread : (left.take (limit + 1)).mapM (readReceipt f) = .ok (left.take (limit + 1)) := by
    refine mapM_eq_self fun receipt hmem => ?_
    have hvalid := h.valid receipt (hbehind receipt (List.mem_of_mem_take hmem)).1
    exact bind_eq_ok.mpr ⟨(), ensure_eq_ok.mpr (sequencedReceipt_eq_ok hvalid).1, hvalid⟩
  have hchecked : checkSequence authorityId fence after (left.take (limit + 1)) = .ok () :=
    checkSequence_eq_ok (hsorted.sublist (List.take_sublist _ _)) fun receipt hmem =>
      (hbehind receipt (List.mem_of_mem_take hmem)).2
  rw [hread, ok_bind, sequencedExportPage, hchecked, ok_bind, List.take_take, List.length_take]
  -- one row more than the limit is read, to tell whether there are more
  have hmin : min limit (limit + 1) = limit := by omega
  have hmore : (limit < min (limit + 1) left.length) = (limit < left.length) := by
    apply propext
    omega
  simp only [hmin, hmore]

/-! ## What a step adds -/

theorem initial_exportable (f : Format Config) (document : Option Row) :
    Exportable f (initial document) where
  consistent := initial_consistent document
  valid := fun _ h => absurd h List.not_mem_nil
  ascending := .nil
  generation := by
    intro authorityId authority h
    exact absurd (AList.lookup_empty authorityId ▸ h) (by simp)

/-- `later` has the receipts of `db` and, behind them, receipts above its marks. -/
structure Grown (db later : Db) : Prop where
  receipts : ∃ added, later.receipts = db.receipts ++ added ∧
    ∀ receipt ∈ added, db.highWater receipt.stamp.authorityId < receipt.seq
  highWater : ∀ authorityId, db.highWater authorityId ≤ later.highWater authorityId

theorem Grown.refl (db : Db) : Grown db db :=
  ⟨⟨[], (List.append_nil _).symm, fun _ h => absurd h List.not_mem_nil⟩, fun _ => Nat.le_refl _⟩

theorem Grown.trans {db₁ db₂ db₃ : Db} (h : Grown db₁ db₂) (h' : Grown db₂ db₃) :
    Grown db₁ db₃ := by
  obtain ⟨⟨added, hreceipts, habove⟩, hle⟩ := h
  obtain ⟨⟨added', hreceipts', habove'⟩, hle'⟩ := h'
  refine ⟨⟨added ++ added', ?_, ?_⟩, fun authorityId => Nat.le_trans (hle _) (hle' _)⟩
  · rw [hreceipts', hreceipts, List.append_assoc]
  · intro receipt hmem
    rcases List.mem_append.mp hmem with hmem | hmem
    · exact habove receipt hmem
    · exact Nat.lt_of_le_of_lt (hle _) (habove' receipt hmem)

/-- Up to a mark that was there before, nothing is added. -/
theorem Grown.upTo_eq (h : Grown db db') (hfence : fence ≤ db.highWater authorityId) :
    db'.upTo authorityId fence = db.upTo authorityId fence := by
  obtain ⟨added, hreceipts, habove⟩ := h.receipts
  have hnone : (added.filter fun receipt =>
      receipt.stamp.authorityId = authorityId ∧ receipt.seq ≤ fence) = [] := by
    rw [List.filter_eq_nil_iff]
    intro receipt hmem hupTo
    obtain ⟨rfl, hle⟩ := of_decide_eq_true hupTo
    exact absurd (Nat.lt_of_lt_of_le (habove receipt hmem) hle) (Nat.not_lt_of_le hfence)
  unfold Db.upTo
  rw [hreceipts, List.filter_append, hnone, List.append_nil]

theorem Released.receipts_eq {releaseId : Bytes} (h : Released f db db' releaseId receipt) :
    db'.receipts = db.receipts := by
  unfold Db.receipts
  rw [h.result, List.map_map]
  apply List.map_congr_left
  intro row _
  show RetainedReceipt.receipt (if _ then _ else _) = row.receipt
  split <;> rfl

theorem Committed.receipts_eq (h : Committed f db db' receipt) :
    db'.receipts = db.receipts ++ [receipt] := by
  unfold Db.receipts
  rw [h.receipts, List.map_append]
  rfl

theorem Committed.grown (h : Committed f db db' receipt) :
    Grown db db' := by
  refine ⟨⟨[receipt], h.receipts_eq, fun other hother => ?_⟩, fun authorityId => ?_⟩
  · rw [List.mem_singleton.mp hother]
    exact h.fresh
  · by_cases hauthority : authorityId = receipt.stamp.authorityId
    · subst hauthority
      have hmark : db'.highWater receipt.stamp.authorityId = receipt.stamp.acceptanceSeq := by
        unfold Db.highWater
        rw [h.authorities, AList.lookup_insert]
        rfl
      rw [hmark]
      exact Nat.le_of_lt h.fresh
    · unfold Db.highWater
      rw [h.authorities, AList.lookup_insert_ne hauthority]

/-- **Commits** keep the receipts in order: the new one is above all of its authority. -/
theorem Exportable.committed (h : Exportable f db) (hconsistent : Consistent db')
    (hcommitted : Committed f db db' receipt) :
    Exportable f db' := by
  refine ⟨hconsistent, ?_, ?_, fun authorityId authority hlookup => ?_⟩
  · rw [hcommitted.receipts_eq]
    intro other hother
    rcases List.mem_append.mp hother with hother | hother
    · exact h.valid other hother
    · rw [List.mem_singleton.mp hother]
      exact hcommitted.valid
  · rw [hcommitted.receipts_eq, List.pairwise_append]
    refine ⟨h.ascending, List.pairwise_singleton _ _, fun old hold other hother => ?_⟩
    rw [List.mem_singleton.mp hother]
    intro hauthority
    have hmem : old.seq ∈ db.sequences receipt.stamp.authorityId := ⟨old, hold, hauthority, rfl⟩
    exact Nat.lt_of_le_of_lt (h.consistent.le_highWater hmem) hcommitted.fresh
  · rw [hcommitted.authorities] at hlookup
    rcases Table.lookup_of_insert hlookup with ⟨rfl, rfl⟩ | hold
    · cases hold : db.authorities.lookup receipt.stamp.authorityId with
      | none => rfl
      | some old => exact h.generation _ old hold
    · exact h.generation authorityId authority hold

/-- What leaves receipts and marks alone. -/
theorem Exportable.same (h : Exportable f db) (hconsistent : Consistent db')
    (hreceipts : db'.receipts = db.receipts) (hauthorities : db'.authorities = db.authorities) :
    Exportable f db' ∧ Grown db db' := by
  refine ⟨⟨hconsistent, ?_, ?_, ?_⟩, ⟨[], ?_, fun _ hmem => absurd hmem List.not_mem_nil⟩, ?_⟩
  · rw [hreceipts]
    exact h.valid
  · rw [hreceipts]
    exact h.ascending
  · rw [hauthorities]
    exact h.generation
  · rw [hreceipts, List.append_nil]
  · intro authorityId
    unfold Db.highWater
    rw [hauthorities]

section runs

variable [DecidableEq Config]

/-- **Step**: receipts are only added, above the marks. -/
theorem Exportable.step {event : Event Config} (h : Exportable f db)
    (hstep : (sqlite f).step db event = some db') : Exportable f db' ∧ Grown db db' := by
  have hconsistent := (step_outcome hstep).consistent h.consistent
  rcases step_receipts hstep with hkept | ⟨receipt, hcommitted⟩ | ⟨releaseId, receipt, hreleased⟩
  · have hreceipts : db'.receipts = db.receipts := by
      unfold Db.receipts
      rw [hkept.receipts]
    exact h.same hconsistent hreceipts hkept.authorities
  · exact ⟨h.committed hconsistent hcommitted, hcommitted.grown⟩
  · exact h.same hconsistent hreleased.receipts_eq (by rw [hreleased.result])

theorem Exportable.run {events : List (Event Config)} (h : Exportable f db)
    (hrun : (sqlite f).run db events = some db') : Exportable f db' ∧ Grown db db' :=
  ⟨Machine.run_invariant (fun _ _ _ h hstep => (h.step hstep).1) h hrun,
    Machine.run_relation (Exportable f) Grown Grown.refl (fun _ _ _ => Grown.trans)
      (fun _ _ _ h hstep => (h.step hstep).1) (fun _ _ _ h hstep => (h.step hstep).2) h hrun⟩

/-- Calls may fail, but they end. -/
theorem run_getD (db : Db) (events : List (Event Config)) :
    (sqlite f).run db events = some (((sqlite f).run db events).getD db) := by
  obtain ⟨later, hlater⟩ : ∃ later, (sqlite f).run db events = some later := by
    induction events generalizing db with
    | nil => exact ⟨db, rfl⟩
    | cons event events ih =>
      obtain ⟨next, hnext⟩ : ∃ next, (sqlite f).step db event = some next := by
        cases event with
        | call call fresh => exact ⟨_, rfl⟩
        | fault call => exact ⟨_, rfl⟩
      obtain ⟨later, hlater⟩ := ih next
      exact ⟨later, (sqlite f).run_cons_eq_some.mpr ⟨next, hnext, hlater⟩⟩
  rw [hlater]
  rfl

/-! ## Walks -/

/-- The next page is asked for with what the store returned. -/
theorem Asks.next {requested : Option SequencedReceiptSnapshot}
    (hasks : Asks db authorityId after requested fence) (hgrown : Grown db db') (limit : Nat) :
    Asks db' authorityId (cursor SequencedCommitReceipt.seq after
      ((behind SequencedCommitReceipt.seq after (db.upTo authorityId fence)).take limit))
      (some ⟨fence, 0⟩) fence where
  validId := hasks.validId
  after_le := cursor_le hasks.after_le fun _ hmem =>
    (mem_upTo.mp (List.mem_of_mem_filter (List.mem_of_mem_take hmem))).2.2
  fence_le := Nat.le_trans hasks.fence_le (hgrown.highWater authorityId)
  snapshot := .inl rfl

/-- **Walk rule**: a walk returns what is left behind its cursor, or it is not over and has
    returned a part of that; every turn but the last has returned a row. -/
theorem walk_eq {turns : List (Nat × List (Event Config))}
    (hlimits : ∀ turn ∈ turns, 1 ≤ turn.1 ∧ turn.1 ≤ sequencedReceiptPageLimit)
    {db : Db} (h : Exportable f db) {after fence : Nat} {authorityId : Bytes}
    {requested : Option SequencedReceiptSnapshot}
    (hasks : Asks db authorityId after requested fence) :
    walk f authorityId db after requested turns =
        .finished (behind SequencedCommitReceipt.seq after (db.upTo authorityId fence)) ⟨fence, 0⟩ ∨
      turns.length ≤
          (behind SequencedCommitReceipt.seq after (db.upTo authorityId fence)).length ∧
        ∃ receipts, walk f authorityId db after requested turns = .unfinished receipts ∧
          receipts <+: behind SequencedCommitReceipt.seq after (db.upTo authorityId fence) := by
  -- the cursor moves, and so does the store; what is left loses its first rows with each page
  induction turns generalizing db after requested with
  | nil => exact .inr ⟨Nat.zero_le _, [], rfl, List.nil_prefix⟩
  | cons turn turns ih =>
    obtain ⟨limit, events⟩ := turn
    have hlimit := hlimits _ List.mem_cons_self
    rw [walk, hasks.listCommitReceiptsV2_eq h hlimit]
    dsimp only
    by_cases hmore :
        limit < (behind SequencedCommitReceipt.seq after (db.upTo authorityId fence)).length
    · rw [if_pos (decide_eq_true hmore)]
      obtain ⟨hlater, hgrown⟩ := h.run (run_getD db events)
      have hnext := hasks.next hgrown limit
      have hleft := behind_cursor (h.pairwise_upTo authorityId fence) after limit
      have hrest := ih (fun turn hturn => hlimits turn (List.mem_cons_of_mem _ hturn)) hlater hnext
      rw [hgrown.upTo_eq hasks.fence_le, hleft] at hrest
      generalize behind SequencedCommitReceipt.seq after (db.upTo authorityId fence) = left
        at hmore hrest ⊢
      -- the page and what comes behind it are what was left
      have hseam : left.take limit ++ left.drop limit = left := List.take_append_drop limit left
      rcases hrest with hfinished | ⟨hlength, receipts, hunfinished, hpart⟩
      · left
        rw [hfinished, Walk.behind, hseam]
      · right
        rw [hunfinished, Walk.behind]
        rw [List.length_drop] at hlength
        have hlong : (turns.length + 1) ≤ left.length := by omega
        refine ⟨hlong, _, rfl, ?_⟩
        have hjoined := (List.prefix_append_right_inj (left.take limit)).mpr hpart
        rwa [hseam] at hjoined
    · left
      rw [if_neg (by simpa using hmore), List.take_of_length_le (Nat.not_lt.mp hmore)]

/-- **Export**: from any state that the store can reach, a walk that starts at 0 without a
    snapshot never fails. It ends after at most as many pages as there are receipts and one
    more, and it has then read exactly the receipts up to the mark of its first page, in
    ascending order; whatever the store did in between, there is none that it has missed. -/
theorem receipt_export_complete (f : Format Config) (document : Option Row)
    {before : List (Event Config)} (hrun : (sqlite f).run (initial document) before = some db)
    (hid : validHex authorityId 32 = true) {turns : List (Nat × List (Event Config))}
    (hlimits : ∀ turn ∈ turns, 1 ≤ turn.1 ∧ turn.1 ≤ sequencedReceiptPageLimit) :
    (db.upTo authorityId (db.highWater authorityId)).Pairwise (fun a b => a.seq < b.seq) ∧
      (walk f authorityId db 0 none turns =
          .finished (db.upTo authorityId (db.highWater authorityId))
            ⟨db.highWater authorityId, 0⟩ ∨
        turns.length ≤ (db.upTo authorityId (db.highWater authorityId)).length ∧
          ∃ receipts, walk f authorityId db 0 none turns = .unfinished receipts ∧
            receipts <+: db.upTo authorityId (db.highWater authorityId)) ∧
      ∀ events later, (sqlite f).run db events = some later →
        later.upTo authorityId (db.highWater authorityId) =
          db.upTo authorityId (db.highWater authorityId) := by
  have h := ((initial_exportable f document).run hrun).1
  have hasks : Asks db authorityId 0 none (db.highWater authorityId) :=
    ⟨hid, Nat.zero_le _, Nat.le_refl _, .inr ⟨rfl, rfl, rfl⟩⟩
  -- sequences start at 1, so the cursor 0 is in front of every receipt
  have hall : behind SequencedCommitReceipt.seq 0
      (db.upTo authorityId (db.highWater authorityId)) =
      db.upTo authorityId (db.highWater authorityId) := by
    refine List.filter_eq_self.mpr fun receipt hmem => decide_eq_true ?_
    exact (sequencedReceipt_eq_ok (h.valid receipt (mem_upTo.mp hmem).1)).2.2
  refine ⟨h.pairwise_upTo _ _, ?_, fun events later hlater => ?_⟩
  · have hwalk := walk_eq hlimits h hasks
    rwa [hall] at hwalk
  · exact (h.run hlater).2.upTo_eq (Nat.le_refl _)

end runs

/-- A write of the note's authority under a later sequence. -/
def laterStamp (seq : Nat) (operationId : Bytes) (note : Nat × Bytes) : SequencedOperationStamp :=
  { noteStamp note with acceptanceSeq := seq, operationId := operationId }

def secondStamp : SequencedOperationStamp :=
  laterStamp 2 (ascii "00000000000000020000000000000000") (3, [8])

/-- Two notes are written. -/
def noteWritten : List (Event (Nat × Bytes)) :=
  noteSeed ++ [.sequenced [] noteEpoch 1 (0, [7]) (noteStamp (2, [7])),
    .sequenced [] noteEpoch 2 (0, [8]) secondStamp]

/-- A third note is written between the pages. -/
def noteTurns : List (Nat × List (Event (Nat × Bytes))) :=
  [(1, [.sequenced [] noteEpoch 3 (0, [9])
    (laterStamp 3 (ascii "00000000000000030000000000000000") (4, [9]))]), (1, []), (1, [])]

/-- The receipts of the first two notes are exported, one on each page. -/
theorem receipt_export_complete_note :
    ∃ db later, (sqlite noteFormat).run (initial none) noteWritten = some db ∧
      walk noteFormat noteReceipt.stamp.authorityId db 0 none noteTurns =
        .finished [noteReceipt, ⟨noteEpoch, 3, secondStamp⟩] ⟨2, 0⟩ ∧
      (sqlite noteFormat).run db (noteTurns.flatMap Prod.snd) = some later ∧
      later.highWater noteReceipt.stamp.authorityId = 3 := by
  obtain ⟨db, hdb⟩ : ∃ db, (sqlite noteFormat).run (initial none) noteWritten = some db := ⟨_, rfl⟩
  have hupTo : db.highWater noteReceipt.stamp.authorityId = 2 ∧
      db.upTo noteReceipt.stamp.authorityId 2 = [noteReceipt, ⟨noteEpoch, 3, secondStamp⟩] := by
    obtain rfl := Option.some.inj hdb
    decide +kernel
  have hlater : ∃ later, (sqlite noteFormat).run db (noteTurns.flatMap Prod.snd) = some later ∧
      later.highWater noteReceipt.stamp.authorityId = 3 := by
    obtain rfl := Option.some.inj hdb
    exact ⟨_, rfl, by decide +kernel⟩
  have hid : validHex noteReceipt.stamp.authorityId 32 = true := by decide +kernel
  have hlimits : ∀ turn ∈ noteTurns, 1 ≤ turn.1 ∧ turn.1 ≤ sequencedReceiptPageLimit := by
    simp [noteTurns, sequencedReceiptPageLimit]
  obtain ⟨-, hwalk, -⟩ := receipt_export_complete noteFormat none hdb hid hlimits
  rw [hupTo.1, hupTo.2] at hwalk
  obtain ⟨later, hlater⟩ := hlater
  rcases hwalk with hfinished | ⟨hlength, -⟩
  · exact ⟨db, later, hdb, hfinished, hlater⟩
  · exact absurd hlength (by decide)

end ConfigStore
