import Hangang.ConfigStore.ExactlyOnce
import Hangang.Framework.Lists

/-! # The Ledger of Releases

    A sequenced receipt is pinned until it is released. A release leaves one row of evidence,
    takes the pin away and raises a counter, all in one transaction. The ledger only grows,
    and a receipt is unpinned exactly if the ledger has its row. -/

open Bytes Except

namespace ConfigStore

variable {Config : Type} {f : Format Config} {db db' : Db} {releaseId : Bytes}
  {receipt : SequencedCommitReceipt}

/-- The primary key of a receipt. -/
def SequencedCommitReceipt.key (receipt : SequencedCommitReceipt) : Bytes × Nat :=
  (receipt.stamp.authorityId, receipt.stamp.acceptanceSeq)

/-! ## What a release does -/

theorem sequencedReceipt_eq {result : SequencedCommitReceipt}
    (h : sequencedReceipt f receipt = .ok result) : result = receipt := by
  simp only [sequencedReceipt, bind_eq_ok] at h
  obtain ⟨_, -, _, -, _, -, _, -, h⟩ := h
  exact (Except.ok.inj h).symm

/-- `validate_release_request` lets the request through. -/
structure Requested (f : Format Config) (releaseId : Bytes) (receipt : SequencedCommitReceipt) :
    Prop where
  id : validHex releaseId 32 = true
  revision : receipt.revision < 2 ^ 63
  valid : sequencedReceipt f receipt = .ok receipt

/-- A release that took place. -/
structure Released (f : Format Config) (db db' : Db) (releaseId : Bytes)
    (receipt : SequencedCommitReceipt) : Prop where
  requested : Requested f releaseId receipt
  found : findReceipt db receipt.stamp.authorityId receipt.stamp.acceptanceSeq =
    some ⟨receipt, true⟩
  room : db.releaseRecords < 100000
  fresh : ∀ old ∈ db.releases, old.1 ≠ releaseId ∧ old.2.key ≠ receipt.key
  result : db' = { db with
    releases := db.releases ++ [(releaseId, receipt)]
    sequencedReceipts := db.sequencedReceipts.map fun row =>
      if row.receipt.key = receipt.key then { row with unresolvedPin := false } else row
    releaseRecords := db.releaseRecords + 1 }

theorem key_eq_iff {a b : SequencedCommitReceipt} :
    a.key = b.key ↔ a.stamp.authorityId = b.stamp.authorityId ∧
      a.stamp.acceptanceSeq = b.stamp.acceptanceSeq := Prod.mk.injEq _ _ _ _ ▸ Iff.rfl

/-- The observation of a receipt is of the row that is retained. -/
theorem findReceipt_of_observation {authorityId : Bytes} {seq : Nat}
    {observation : SequencedReceiptObservation}
    (h : sqliteSequencedObservation f db authorityId seq = .ok observation)
    (hreceipt : observation.receipt = some receipt) :
    ∃ pin, findReceipt db authorityId seq = some ⟨receipt, pin⟩ := by
  unfold sqliteSequencedObservation at h
  split at h
  next =>
    rw [(sequencedObservation_eq_ok h).1] at hreceipt
    cases hreceipt
  next row hfind =>
    simp only [bind_eq_ok] at h
    obtain ⟨_, -, found, hfound, h⟩ := h
    obtain rfl := sequencedReceipt_eq hfound
    rw [(sequencedObservation_eq_ok h).1] at hreceipt
    obtain rfl := Option.some.inj hreceipt
    exact ⟨row.unresolvedPin, hfind⟩

/-- **What a release call can do**: it repeats a release, or it takes place. -/
theorem releaseCommitReceiptV2_eq_ok
    (h : releaseCommitReceiptV2 f db releaseId receipt = .ok db') :
    Requested f releaseId receipt ∧
      (db.releases.lookup releaseId = some receipt ∧ db' = db ∨
        Released f db db' releaseId receipt) := by
  simp only [releaseCommitReceiptV2, bind_eq_ok] at h
  obtain ⟨_, hid, _, hrevision, valid, hvalid, existing, hexisting, h⟩ := h
  obtain rfl := sequencedReceipt_eq hvalid
  have hrequested : Requested f releaseId valid :=
    ⟨ensure_eq_ok.mp hid, ensure_eq_ok.mp hrevision, hvalid⟩
  refine ⟨hrequested, ?_⟩
  cases existing with
  | some existing =>
    by_cases hsame : existing = valid
    · obtain rfl := Except.ok.inj ((if_pos hsame).symm.trans h)
      left
      unfold sqliteReleaseReceipt at hexisting
      split at hexisting
      · cases hexisting
      next stored hlookup =>
        obtain ⟨found, hfound, heq⟩ := map_eq_ok.mp hexisting
        rw [← sequencedReceipt_eq hfound, Option.some.inj heq, hsame] at hlookup
        exact ⟨hlookup, rfl⟩
    · cases (if_neg hsame).symm.trans h
  | none =>
    simp only [bind_eq_ok] at h
    obtain ⟨observed, hobserved, _, hmatch, _, hpinned, _, hroom, _, hfresh, h⟩ := h
    obtain ⟨pin, hfind⟩ := findReceipt_of_observation hobserved (ensure_eq_ok.mp hmatch)
    have hpin := ensure_eq_ok.mp hpinned
    rw [hfind] at hpin
    obtain rfl : pin = true := hpin
    refine .inr ⟨hrequested, hfind, ensure_eq_ok.mp hroom, fun old hold => ?_, ?_⟩
    · obtain ⟨hne, hkey⟩ := ensure_eq_ok.mp hfresh old hold
      exact ⟨hne, fun heq => hkey (key_eq_iff.mp heq)⟩
    · rw [← Except.ok.inj h]
      simp only [key_eq_iff]

/-- A repeated release succeeds. -/
theorem releaseCommitReceiptV2_of_lookup (hrequested : Requested f releaseId receipt)
    (hlookup : db.releases.lookup releaseId = some receipt) :
    releaseCommitReceiptV2 f db releaseId receipt = .ok db := by
  have hrevision : revisionToI64 receipt.revision = .ok () := ensure_eq_ok.mpr hrequested.revision
  simp [releaseCommitReceiptV2, sqliteReleaseReceipt, hlookup, hrequested.id, hrequested.valid,
    hrevision, ok_bind, Except.map]

/-! ## What a step does to the receipts -/

variable [DecidableEq Config]

/-- **Every step** leaves the receipts alone, commits one or releases one. -/
theorem step_receipts {event : Event Config} (h : (sqlite f).step db event = some db') :
    SameReceipts db db' ∨ (∃ receipt, Committed f db db' receipt) ∨
      ∃ releaseId receipt, Released f db db' releaseId receipt := by
  cases event with
  | fault => exact .inl (Option.some.inj h ▸ .refl _)
  | call call fresh =>
    obtain rfl : settled db (perform f fresh db call) = db' := Option.some.inj h
    cases hperform : perform f fresh db call with
    | error e => exact .inl (.refl _)
    | ok tx =>
      show SameReceipts db tx ∨ _ ∨ _
      cases call with
      -- of the calls that succeed, two can touch the receipts
      | seed initial epoch => exact .inl (seed_outcome hperform).2
      | loadLatest =>
        exact .inl (Except.ok.inj hperform ▸ (upgradeEpoch_upgraded db fresh).sameReceipts)
      | compareAndSwap epoch expected next =>
        obtain ⟨⟨_, _⟩, hcall, rfl⟩ := map_eq_ok.mp hperform
        exact .inl (compareAndSwap_outcome hcall).2.1
      | compareAndSwapOperation epoch expected next stamp =>
        obtain ⟨⟨_, _⟩, hcall, rfl⟩ := map_eq_ok.mp hperform
        exact .inl (compareAndSwapOperation_outcome hcall).2.1
      | compareAndSwapOperationV2 epoch expected next stamp =>
        obtain ⟨⟨_, _⟩, hcall, rfl⟩ := map_eq_ok.mp hperform
        rcases (compareAndSwapOperationV2_eq_ok hcall).2.2 with hsame | hcommitted
        · exact .inl hsame
        · exact .inr (.inl ⟨_, hcommitted⟩)
      | releaseCommitReceiptV2 releaseId receipt =>
        rcases (releaseCommitReceiptV2_eq_ok hperform).2 with ⟨-, rfl⟩ | hreleased
        · exact .inl (.refl _)
        · exact .inr (.inr ⟨releaseId, receipt, hreleased⟩)
      | loadCurrentOperationProof =>
        obtain ⟨⟨_, _⟩, hcall, rfl⟩ := map_eq_ok.mp hperform
        exact .inl (loadCurrentOperationProof_outcome hcall).2
      | lookupCommitReceipt =>
        obtain ⟨_, -, rfl⟩ := map_eq_ok.mp hperform
        exact .inl (.refl _)
      | lookupCommitReceiptV2 =>
        obtain ⟨_, -, rfl⟩ := map_eq_ok.mp hperform
        exact .inl (.refl _)
      | lookupReceiptPinV2 =>
        obtain ⟨_, -, rfl⟩ := map_eq_ok.mp hperform
        exact .inl (.refl _)
      | lookupReceiptReleaseV2 =>
        obtain ⟨_, -, rfl⟩ := map_eq_ok.mp hperform
        exact .inl (.refl _)

/-! ## The invariant -/

/-- The books of the ledger. -/
structure Ledger (f : Format Config) (db : Db) : Prop where
  consistent : Consistent db
  ids : (db.releases.map Prod.fst).Nodup
  once : (db.releases.map fun release => release.2.key).Nodup
  keys : (db.sequencedReceipts.map fun row => row.receipt.key).Nodup
  requested : ∀ release ∈ db.releases, Requested f release.1 release.2
  pins : ∀ row ∈ db.sequencedReceipts,
    row.unresolvedPin = false ↔ row.receipt ∈ db.releases.map Prod.snd
  retained : ∀ receipt ∈ db.releases.map Prod.snd,
    receipt ∈ db.sequencedReceipts.map RetainedReceipt.receipt
  counted : db.releaseRecords = db.releases.length
  bounded : db.releaseRecords ≤ 100000

omit [DecidableEq Config] in
theorem initial_ledger (f : Format Config) (document : Option Row) :
    Ledger f (initial document) where
  consistent := initial_consistent document
  ids := List.nodup_nil
  once := List.nodup_nil
  keys := List.nodup_nil
  requested := fun _ h => absurd h List.not_mem_nil
  pins := fun _ h => absurd h List.not_mem_nil
  retained := fun _ h => absurd h List.not_mem_nil
  counted := rfl
  bounded := Nat.zero_le _

omit [DecidableEq Config] in
/-- A receipt above the mark has a new key. -/
theorem key_fresh (h : Consistent db) {receipt : SequencedCommitReceipt}
    (hfresh : db.highWater receipt.stamp.authorityId < receipt.stamp.acceptanceSeq)
    {row : RetainedReceipt} (hrow : row ∈ db.sequencedReceipts) :
    row.receipt.key ≠ receipt.key := by
  intro hkey
  obtain ⟨hauthority, hseq⟩ := key_eq_iff.mp hkey
  have hmem : receipt.stamp.acceptanceSeq ∈ db.sequences receipt.stamp.authorityId :=
    ⟨row.receipt, List.mem_map_of_mem hrow, hauthority, hseq⟩
  exact absurd (h.le_highWater hmem) (Nat.not_le_of_lt hfresh)

omit [DecidableEq Config] in
/-- **Commits** keep the books: the new receipt is pinned, and no release speaks of it. -/
theorem Ledger.committed (h : Ledger f db) (hconsistent : Consistent db')
    {receipt : SequencedCommitReceipt} (hcommitted : Committed f db db' receipt) :
    Ledger f db' := by
  have hnew : receipt ∉ db.releases.map Prod.snd := by
    intro hmem
    obtain ⟨row, hrow, heq⟩ := List.mem_map.mp (h.retained receipt hmem)
    exact key_fresh h.consistent hcommitted.fresh hrow (congrArg _ heq)
  refine ⟨hconsistent, ?_, ?_, ?_, ?_, ?_, ?_, ?_, ?_⟩
  · rw [hcommitted.releases]
    exact h.ids
  · rw [hcommitted.releases]
    exact h.once
  · rw [hcommitted.receipts]
    exact List.nodup_map_concat h.keys fun row hrow => key_fresh h.consistent hcommitted.fresh hrow
  · rw [hcommitted.releases]
    exact h.requested
  · rw [hcommitted.releases, hcommitted.receipts]
    intro row hrow
    rcases List.mem_append.mp hrow with hrow | hrow
    · exact h.pins row hrow
    · rw [List.mem_singleton.mp hrow]
      exact ⟨(fun hfalse => by cases hfalse), fun hmem => absurd hmem hnew⟩
  · rw [hcommitted.releases, hcommitted.receipts, List.map_append]
    intro old hold
    exact List.mem_append_left _ (h.retained old hold)
  · rw [hcommitted.records, hcommitted.releases]
    exact h.counted
  · rw [hcommitted.records]
    exact h.bounded

omit [DecidableEq Config] in
/-- **Releases** keep the books: the row with the key is the receipt that is released. -/
theorem Ledger.released (h : Ledger f db) (hconsistent : Consistent db')
    (hreleased : Released f db db' releaseId receipt) : Ledger f db' := by
  -- unpinning changes no receipt
  have hreceipts : ∀ row : RetainedReceipt, RetainedReceipt.receipt
      (if row.receipt.key = receipt.key then { row with unresolvedPin := false } else row) =
        row.receipt := by
    intro row
    split <;> rfl
  have hfound : (⟨receipt, true⟩ : RetainedReceipt) ∈ db.sequencedReceipts :=
    List.mem_of_find?_eq_some hreleased.found
  -- one row has the key
  have hsame : ∀ row ∈ db.sequencedReceipts, row.receipt.key = receipt.key →
      row.receipt = receipt := by
    intro row hrow hkey
    have heq := List.inj_on_of_nodup_map h.keys hrow hfound hkey
    rw [heq]
  obtain ⟨hrequested, -, hroom, hfresh, rfl⟩ := hreleased
  refine ⟨hconsistent, ?_, ?_, ?_, ?_, ?_, ?_, ?_, ?_⟩
  · exact List.nodup_map_concat h.ids fun old hold => (hfresh old hold).1
  · exact List.nodup_map_concat h.once fun old hold => (hfresh old hold).2
  · rw [List.map_map]
    simp only [Function.comp_def, hreceipts]
    exact h.keys
  · intro release hmem
    rcases List.mem_append.mp hmem with hmem | hmem
    · exact h.requested release hmem
    · rw [List.mem_singleton.mp hmem]
      exact hrequested
  -- the pins: the row that is released, and the others
  · intro row' hrow'
    obtain ⟨row, hrow, rfl⟩ := List.mem_map.mp hrow'
    rw [hreceipts, List.map_append, List.mem_append]
    by_cases hkey : row.receipt.key = receipt.key
    · rw [if_pos hkey, hsame row hrow hkey]
      exact ⟨fun _ => .inr List.mem_cons_self, fun _ => rfl⟩
    · rw [if_neg hkey, h.pins row hrow]
      refine ⟨.inl, fun hmem => hmem.resolve_right fun hlast => hkey ?_⟩
      rw [List.mem_singleton.mp hlast]
  · intro old hold
    rw [List.map_map]
    simp only [Function.comp_def, hreceipts]
    rw [List.map_append] at hold
    rcases List.mem_append.mp hold with hold | hold
    · exact h.retained old hold
    · rw [List.mem_singleton.mp hold]
      exact List.mem_map.mpr ⟨_, hfound, rfl⟩
  · rw [List.length_append, h.counted]
    rfl
  · exact hroom

/-- **Step**: every call keeps the books. -/
theorem Ledger.step {event : Event Config} (h : Ledger f db)
    (hstep : (sqlite f).step db event = some db') : Ledger f db' := by
  have hconsistent := (step_outcome hstep).consistent h.consistent
  rcases step_receipts hstep with hsame | ⟨receipt, hcommitted⟩ | ⟨releaseId, receipt, hreleased⟩
  · obtain ⟨hreceipts, -, hreleases, hrecords⟩ := hsame
    refine ⟨hconsistent, ?_, ?_, ?_, ?_, ?_, ?_, ?_, ?_⟩
    all_goals simp only [hreceipts, hreleases, hrecords]
    · exact h.ids
    · exact h.once
    · exact h.keys
    · exact h.requested
    · exact h.pins
    · exact h.retained
    · exact h.counted
    · exact h.bounded
  · exact h.committed hconsistent hcommitted
  · exact h.released hconsistent hreleased

theorem run_ledger {document : Option Row} {events : List (Event Config)}
    (hrun : (sqlite f).run (initial document) events = some db) : Ledger f db :=
  Machine.run_invariant (fun _ _ _ h hstep => h.step hstep) (initial_ledger f document) hrun

/-! ## What stays -/

/-- The ledger of `later` begins with the one of `db`, and no receipt was pinned again. -/
structure Stays (db later : Db) : Prop where
  releases : db.releases <+: later.releases
  unpinned : ∀ row ∈ db.sequencedReceipts, row.unresolvedPin = false →
    row ∈ later.sequencedReceipts

theorem step_stays {event : Event Config} (hstep : (sqlite f).step db event = some db') :
    Stays db db' := by
  rcases step_receipts hstep with hsame | ⟨receipt, hcommitted⟩ | ⟨releaseId, receipt, hreleased⟩
  · refine ⟨?_, fun row hrow _ => ?_⟩
    · exact hsame.releases ▸ List.prefix_rfl
    · rw [hsame.receipts]
      exact hrow
  · refine ⟨?_, fun row hrow _ => ?_⟩
    · exact hcommitted.releases ▸ List.prefix_rfl
    · rw [hcommitted.receipts]
      exact List.mem_append_left _ hrow
  · rw [hreleased.result]
    refine ⟨List.prefix_append _ _, fun row hrow hunpinned => List.mem_map.mpr ⟨row, hrow, ?_⟩⟩
    split
    · rw [← hunpinned]
    · rfl

theorem run_stays {events : List (Event Config)} {later : Db}
    (hrun : (sqlite f).run db events = some later) : Stays db later :=
  Machine.run_relation (fun _ => True) Stays (fun _ => ⟨List.prefix_rfl, fun _ h _ => h⟩)
    (fun _ _ _ h h' => ⟨h.releases.trans h'.releases, fun row hrow hunpinned =>
      h'.unpinned row (h.unpinned row hrow hunpinned) hunpinned⟩)
    (fun _ _ _ _ _ => trivial) (fun _ _ _ _ hstep => step_stays hstep) trivial hrun

/-! ## The ledger -/

/-- **The ledger of releases.** In every state that calls of any kind can reach:

    * a receipt is unpinned exactly if the ledger has one row for its key, and that row is
      the receipt in every field;
    * the counter is the number of rows, and within the capacity;
    * a release id names its receipt in every later state, and a receipt that is unpinned
      stays so;
    * a release that succeeded succeeds again at any later time and changes nothing;
    * any other use of its id, and any other release of its receipt, fails and changes
      nothing. -/
theorem release_ledger (f : Format Config) (document : Option Row)
    {before : List (Event Config)} {db : Db}
    (hrun : (sqlite f).run (initial document) before = some db) :
    (∀ row ∈ db.sequencedReceipts, row.unresolvedPin = false ↔
      ∃ id, db.releases.filter (fun release => release.2.key = row.receipt.key) =
        [(id, row.receipt)]) ∧
    (db.releaseRecords = db.releases.length ∧ db.releaseRecords ≤ 100000) ∧
    (∀ (events : List (Event Config)) (later : Db), (sqlite f).run db events = some later →
      (∀ id receipt, (id, receipt) ∈ db.releases →
        ∀ other, (id, other) ∈ later.releases ↔ other = receipt) ∧
      ∀ row ∈ db.sequencedReceipts, row.unresolvedPin = false →
        row ∈ later.sequencedReceipts ∧ ∀ row' ∈ later.sequencedReceipts,
          row'.receipt.key = row.receipt.key → row' = row) ∧
    (∀ id receipt db', releaseCommitReceiptV2 f db id receipt = .ok db' →
      ∀ (events : List (Event Config)) (later : Db), (sqlite f).run db' events = some later →
        releaseCommitReceiptV2 f later id receipt = .ok later) ∧
    ∀ id receipt, (id, receipt) ∉ db.releases →
      (∃ release ∈ db.releases, release.1 = id ∨ release.2.key = receipt.key) →
      (∃ e, releaseCommitReceiptV2 f db id receipt = .error e) ∧
        ∀ fresh, (sqlite f).step db (.call (.releaseCommitReceiptV2 id receipt) fresh) =
          some db := by
  have hledger := run_ledger hrun
  refine ⟨fun row hrow => ?_, ⟨hledger.counted, hledger.bounded⟩, fun events later hlater => ?_,
    fun id receipt db' hcall events later hlater => ?_, fun id receipt hnot hused => ?_⟩
  -- the pin is decided by the ledger, which has at most one row for a key
  · rw [hledger.pins row hrow, List.mem_map]
    constructor
    · rintro ⟨⟨id, receipt⟩, hmem, rfl⟩
      exact ⟨id, List.filter_key_eq (g := fun release : Bytes × SequencedCommitReceipt =>
        release.2.key) hledger.once hmem⟩
    · rintro ⟨id, hfilter⟩
      have hmem : (id, row.receipt) ∈ db.releases.filter
          fun release => release.2.key = row.receipt.key := hfilter ▸ List.mem_cons_self
      exact ⟨_, (List.mem_filter.mp hmem).1, rfl⟩
  · have hstays := run_stays hlater
    have hledger' := Machine.run_invariant (fun _ _ _ h hstep => h.step hstep) hledger hlater
    refine ⟨fun id receipt hmem other => ?_, fun row hrow hunpinned => ?_⟩
    · have hmem' := hstays.releases.subset hmem
      rw [← List.lookup_iff_mem hledger'.ids, (List.lookup_iff_mem hledger'.ids).mpr hmem',
        Option.some.injEq, eq_comm]
    · have hrow' := hstays.unpinned row hrow hunpinned
      exact ⟨hrow', fun other hother hkey =>
        List.inj_on_of_nodup_map hledger'.keys hother hrow' hkey⟩
  -- a repeated release finds its own row, in this state and in every later one
  · obtain ⟨hrequested, houtcome⟩ := releaseCommitReceiptV2_eq_ok hcall
    have hstep : (sqlite f).step db (.call (.releaseCommitReceiptV2 id receipt) []) = some db' := by
      show some (settled db (releaseCommitReceiptV2 f db id receipt)) = some db'
      rw [hcall]
      rfl
    have hledger' := hledger.step hstep
    have hmem : (id, receipt) ∈ db'.releases := by
      rcases houtcome with ⟨hlookup, rfl⟩ | hreleased
      · exact (List.lookup_iff_mem hledger.ids).mp hlookup
      · rw [hreleased.result]
        exact List.mem_append_right _ List.mem_cons_self
    have hlater' := Machine.run_invariant (fun _ _ _ h hstep => h.step hstep) hledger' hlater
    exact releaseCommitReceiptV2_of_lookup hrequested
      ((List.lookup_iff_mem hlater'.ids).mpr ((run_stays hlater).releases.subset hmem))
  · cases hcall : releaseCommitReceiptV2 f db id receipt with
    | error e =>
      refine ⟨⟨e, rfl⟩, fun fresh => ?_⟩
      show some (settled db (releaseCommitReceiptV2 f db id receipt)) = some db
      rw [hcall]
      rfl
    -- a success would need a row of this id and receipt, or neither of them used
    | ok db' =>
      rcases (releaseCommitReceiptV2_eq_ok hcall).2 with ⟨hlookup, -⟩ | hreleased
      · exact absurd ((List.lookup_iff_mem hledger.ids).mp hlookup) hnot
      · obtain ⟨release, hrelease, huse⟩ := hused
        obtain ⟨hid, hkey⟩ := hreleased.fresh release hrelease
        exact absurd huse (by simp [hid, hkey])

def noteReceipt : SequencedCommitReceipt := ⟨noteEpoch, 2, noteStamp (2, [7])⟩

def noteRelease : Bytes := List.replicate 32 98

/-- A note is written under the first sequence, and its receipt is released. -/
def noteReleased : List (Event (Nat × Bytes)) :=
  noteSeed ++ [.sequenced [] noteEpoch 1 (0, [7]) (noteStamp (2, [7])),
    .call (.releaseCommitReceiptV2 noteRelease noteReceipt) []]

/-- The receipt is unpinned, and a release under another id fails. -/
theorem release_ledger_note :
    ∃ db, (sqlite noteFormat).run (initial none) noteReleased = some db ∧
      (∃ row ∈ db.sequencedReceipts, row.receipt = noteReceipt ∧ row.unresolvedPin = false ∧
        ∃ id, db.releases.filter (fun release => release.2.key = row.receipt.key) =
          [(id, row.receipt)]) ∧
      ∃ e, releaseCommitReceiptV2 noteFormat db (List.replicate 32 99) noteReceipt = .error e := by
  obtain ⟨db, hdb⟩ : ∃ db, (sqlite noteFormat).run (initial none) noteReleased = some db := ⟨_, rfl⟩
  have hmem : (⟨noteReceipt, false⟩ : RetainedReceipt) ∈ db.sequencedReceipts := by
    obtain rfl := Option.some.inj hdb
    decide +kernel
  have hrelease : (noteRelease, noteReceipt) ∈ db.releases ∧
      (List.replicate 32 99, noteReceipt) ∉ db.releases := by
    obtain rfl := Option.some.inj hdb
    decide +kernel
  obtain ⟨hpins, -, -, -, hothers⟩ := release_ledger noteFormat none hdb
  refine ⟨db, hdb, ⟨_, hmem, rfl, rfl, (hpins _ hmem).mp rfl⟩, ?_⟩
  exact (hothers _ _ hrelease.2 ⟨_, hrelease.1, .inr rfl⟩).1

end ConfigStore
