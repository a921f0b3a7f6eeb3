import Hangang.AdminUsers.Administrators

/-! # Audit History and Journal over Whole Runs

    Each account change is counted in the transaction that makes it, as a row or as a filtered
    one; and each operation of the journal goes through its states once. Both follow from what
    one call can write, call after call. -/

open Bytes Except ConfigStore Paging

namespace AdminUsers

variable {Config : Type} {c : Crypto} {json : AuditPolicy → Bytes} {f : Format Config}
  {s s' : Records} {call : Call} {accepted : Bool}

/-! ## Audit rows -/

/-- The rows of account changes from an id on. -/
def Audit.newRows (audit : Audit) (next : Nat) : List AuditRecord :=
  audit.rows.filter fun row => next ≤ row.id && row.action.accountAction.isSome

/-- The account change that a call makes if it is accepted. -/
def Call.mutation : Call → Option AuditAction
  | .create .. => some .create
  | .update .. => some .update
  | .delete .. => some .delete
  | _ => none

/-- How a call is counted: as a row of its account, as a filtered change, or not at all. -/
inductive Accounted (c : Crypto) (s s' : Records) (call : Call) : Option AuditAction → Prop where
  | recorded {action : AuditAction} {id : Nat} {row : AuditRecord}
      (hmutation : Mutation c s.accounts call s'.accounts action id)
      (hrows : s'.audit.newRows s.audit.nextAuditId = [row]) (haction : row.action = action)
      (htarget : row.targetUserId = some id)
      (hfiltered : s'.audit.filteredTotal = s.audit.filteredTotal) :
      Accounted c s s' call (some action)
  | filtered {action : AuditAction} {id : Nat}
      (hmutation : Mutation c s.accounts call s'.accounts action id)
      (hrows : s'.audit.newRows s.audit.nextAuditId = [])
      (hfiltered : s'.audit.filteredTotal = s.audit.filteredTotal + 1) :
      Accounted c s s' call (some action)
  | other (hrows : s'.audit.newRows s.audit.nextAuditId = [])
      (hfiltered : s'.audit.filteredTotal = s.audit.filteredTotal) :
      Accounted c s s' call none

theorem Audit.Sound.newRows_nil {audit : Audit} (h : audit.Sound json) :
    audit.newRows audit.nextAuditId = [] := by
  refine List.filter_eq_nil_iff.mpr fun row hrow hnew => ?_
  have hlt := ((h.exists_row row.id).mp ⟨row, hrow, rfl⟩).2
  exact absurd (of_decide_eq_true (Bool.and_eq_true_iff.mp hnew).1) (Nat.not_le_of_lt hlt)

/-- An appended row is new; the rows before it are not. -/
theorem Appended.newRows_eq {audit audit₀ audit' : Audit} {record row : AuditRecord}
    (h : audit.Sound json) (happended : Appended json audit₀ audit' record row)
    (hrows : ∀ row ∈ audit₀.rows, row ∈ audit.rows)
    (hnext : audit₀.nextAuditId = audit.nextAuditId) :
    audit'.newRows audit.nextAuditId =
      if record.action.accountAction.isSome then [row] else [] := by
  obtain ⟨-, -, rfl, -, rfl⟩ := happended
  have hold : (audit₀.rows.filter fun row => audit.nextAuditId ≤ row.id &&
      row.action.accountAction.isSome) = [] := by
    refine List.filter_eq_nil_iff.mpr fun row hrow => ?_
    exact List.filter_eq_nil_iff.mp h.newRows_nil row (hrows row hrow)
  unfold Audit.newRows
  rw [List.filter_append, hold, List.nil_append, List.filter_singleton, hnext]
  simp only [Nat.le_refl, decide_true, Bool.true_and, Bool.cond_eq_ite]

/-- **Step**: what a call commits is counted once, and nothing else is. -/
theorem Effect.accounted (h : Effect c json f s call s' accepted) (hsound : s.audit.Sound json) :
    Accounted c s s' call (if accepted then call.mutation else none) := by
  -- a row that is no account change
  have hother : ∀ {audit₀ audit' : Audit} {record row : AuditRecord},
      Appended json audit₀ audit' record row → (∀ row ∈ audit₀.rows, row ∈ s.audit.rows) →
      audit₀.nextAuditId = s.audit.nextAuditId → record.action.accountAction = none →
      audit'.newRows s.audit.nextAuditId = [] := by
    intro audit₀ audit' record row happended hrows hnext haction
    rw [happended.newRows_eq hsound hrows hnext, haction]
    rfl
  cases h with
  | refused => exact .other hsound.newRows_nil rfl
  | bootstrap h haction happended =>
    refine .other (hother happended (fun _ hrow => hrow) rfl (by rw [haction]; rfl)) ?_
    rw [happended.result]
  | mutation h haction htarget haudit =>
    rename_i accounts action id audit record
    have hmutation : call.mutation = some action ∧ action.accountAction.isSome = true := by
      cases h with
      | create h => exact ⟨rfl, rfl⟩
      | update h => exact ⟨rfl, rfl⟩
      | delete h => exact ⟨rfl, rfl⟩
    rw [if_pos rfl, hmutation.1]
    rcases appendAccountAudit_eq_ok haudit with hdropped | ⟨row, happended⟩
    · refine .filtered h ?_ ?_
      · rw [hdropped.result]
        exact hsound.newRows_nil
      · rw [hdropped.result]
    · refine @Accounted.recorded c s _ call _ _ row h ?_ ?_ ?_ ?_
      · rw [happended.newRows_eq hsound (fun _ hrow => hrow) rfl, haction, if_pos hmutation.2]
      · rw [happended.row_eq]
        exact haction
      · rw [happended.row_eq]
        exact htarget
      · rw [happended.result]
  | session h =>
    have hnone : call.mutation = none := by
      cases h with
      | login h => rfl
      | ssoLease h => rfl
      | logout => rfl
    rw [hnone, ite_self]
    exact .other hsound.newRows_nil rfl
  | setAuditPolicy h =>
    rcases setAuditPolicy_eq_ok h with rfl | ⟨record, row, haction, happended⟩
    · exact .other hsound.newRows_nil rfl
    · refine .other (hother happended (fun _ hrow => hrow) rfl (by rw [haction]; rfl)) ?_
      rw [happended.result]
      rfl
  | pruneAudit h =>
    obtain ⟨-, -, record, row, haction, happended⟩ := pruneAudit_eq_ok h
    refine .other (hother happended (fun _ hrow => List.mem_of_mem_filter hrow) rfl
      (by rw [haction]; rfl)) ?_
    rw [happended.result]
    rfl
  | journal h =>
    have hnone : call.mutation = none := by
      cases h with
      | accept h => rfl
      | finish h => rfl
      | prepare h => rfl
      | acknowledge h => rfl
    rw [hnone, ite_self]
    exact .other hsound.newRows_nil rfl
  | pruneConfigOperations h haction happended =>
    refine .other (hother happended (fun _ hrow => hrow) rfl (by rw [haction]; rfl)) ?_
    rw [happended.result]

theorem Effect.audit_sound (h : Effect c json f s call s' accepted)
    (hsound : s.audit.Sound json) : s'.audit.Sound json := by
  cases h with
  | refused => exact hsound
  | bootstrap h haction happended => exact happended.sound hsound.ids hsound.next hsound.valid
  | mutation h haction htarget haudit => exact appendAccountAudit_sound hsound haudit
  | session h => exact hsound
  | setAuditPolicy h => exact setAuditPolicy_sound hsound h
  | pruneAudit h => exact pruneAudit_sound hsound h
  | journal h => exact hsound
  | pruneConfigOperations h haction happended =>
    exact happended.sound hsound.ids hsound.next hsound.valid

section runs

variable (c json f)

/-- The account change that a call commits. -/
def Records.committed (s : Records) (call : Call) : Option AuditAction :=
  match s.perform c json f call with
  | .ok (_, accepted) => if accepted then call.mutation else none
  | .error _ => none

/-- The number of account changes that a run commits. -/
def mutations : Records → List Call → Nat
  | _, [] => 0
  | s, call :: calls =>
    (s.committed c json f call).toList.length + mutations (s.next c json f call) calls

/-- The number of rows of account changes that it appends. -/
def accountRows : Records → List Call → Nat
  | _, [] => 0
  | s, call :: calls =>
    ((s.next c json f call).audit.newRows s.audit.nextAuditId).length +
      accountRows (s.next c json f call) calls

/-- The rows of the pages that follow each other, and whether there are more. Each turn has
    the time of its page and its limit. -/
def Records.auditPages (s : Records) (authority : MutationAuthority) :
    Nat → List (Nat × Nat) → Except String (List AuditRecord × Bool)
  | _, [] => .ok ([], true)
  | after, (now, limit) :: turns => do
    let page ← s.auditPage c json now authority after limit
    if page.hasMore then do
      let (rows, more) ← auditPages s authority page.nextAfter turns
      .ok (page.records ++ rows, more)
    else .ok (page.records, false)

end runs

theorem next_accounted (hsound : s.audit.Sound json) (call : Call) :
    (s.next c json f call).audit.Sound json ∧
      Accounted c s (s.next c json f call) call (s.committed c json f call) := by
  unfold Records.committed
  rcases @next_cases _ c json f s call with ⟨e, hperform, hsame⟩ | ⟨accepted, hperform, heffect⟩
  · rw [hperform, hsame]
    exact ⟨hsound, .other hsound.newRows_nil rfl⟩
  · rw [hperform]
    exact ⟨heffect.audit_sound hsound, heffect.accounted hsound⟩

theorem Accounted.count {committed : Option AuditAction}
    (h : Accounted c s s' call committed) :
    committed.toList.length + s.audit.filteredTotal =
      (s'.audit.newRows s.audit.nextAuditId).length + s'.audit.filteredTotal := by
  cases h with
  | recorded hmutation hrows haction htarget hfiltered =>
    rw [hrows, hfiltered]
    rfl
  | filtered hmutation hrows hfiltered =>
    rw [hrows, hfiltered, Option.toList_some, List.length_singleton, List.length_nil]
    omega
  | other hrows hfiltered =>
    rw [hrows, hfiltered]
    rfl

/-- **Totals**: over a run, the changes are the rows and the filtered ones. -/
theorem totals {calls : List Call} (hsound : s.audit.Sound json)
    (hrun : (records c json f).run s calls = some s') :
    mutations c json f s calls + s.audit.filteredTotal =
      accountRows c json f s calls + s'.audit.filteredTotal := by
  induction calls generalizing s with
  | nil =>
    obtain rfl := Option.some.inj hrun
    rfl
  | cons call calls ih =>
    obtain ⟨t, hstep, hrest⟩ := (records c json f).run_cons_eq_some.mp hrun
    obtain rfl := Option.some.inj hstep
    obtain ⟨hnext, haccounted⟩ := @next_accounted _ c json f s hsound call
    have hcount := haccounted.count
    have htotals := ih hnext hrest
    rw [mutations, accountRows]
    omega

/-- **Pages**: from a cursor on, the rows are read once and in order; every turn but the last
    has read one. -/
theorem auditPages_eq (hsound : s.audit.Sound json) {authority : MutationAuthority}
    {turns : List (Nat × Nat)} (hturns : ∀ turn ∈ turns, (1 ≤ turn.2 ∧ turn.2 ≤ 100) ∧
      ∃ actor, authorize c s.accounts turn.1 authority = .ok actor) {after : Nat}
    (hafter : after ≤ maxSafeId) :
    s.auditPages c json authority after turns =
        .ok (behind AuditRecord.id after s.audit.rows, false) ∨
      turns.length ≤ (behind AuditRecord.id after s.audit.rows).length ∧
        ∃ rows, s.auditPages c json authority after turns = .ok (rows, true) ∧
          rows <+: behind AuditRecord.id after s.audit.rows := by
  induction turns generalizing after with
  | nil => exact .inr ⟨Nat.zero_le _, [], rfl, List.nil_prefix⟩
  | cons turn turns ih =>
    obtain ⟨now, limit⟩ := turn
    obtain ⟨hlimit, actor, hactor⟩ := hturns _ List.mem_cons_self
    obtain ⟨page, hpage, hrecords, hnext, hmore⟩ := hsound.auditPage_eq hafter hlimit
    have hbounds : ensure (after ≤ maxSafeId ∧ 1 ≤ limit ∧ limit ≤ 100)
        "invalid audit page bounds" = .ok () := ensure_eq_ok.mpr ⟨hafter, hlimit⟩
    have hread : s.auditPage c json now authority after limit = .ok page := by
      unfold Records.auditPage
      rw [hbounds, ok_bind, hactor, ok_bind]
      exact hpage
    have hleft := behind_cursor hsound.pairwise after limit
    rw [← hnext] at hleft
    have hcursor : page.nextAfter ≤ maxSafeId := by
      rw [hnext]
      refine cursor_le hafter fun row hrow => ?_
      have hvalid := hsound.valid row (List.mem_of_mem_filter (List.mem_of_mem_take hrow))
      have hid : validId row.id = true := (Bool.and_eq_true_iff.mp hvalid).1
      exact of_decide_eq_true (Bool.and_eq_true_iff.mp hid).2
    have hrest := ih (fun turn hturn => hturns turn (List.mem_cons_of_mem _ hturn)) hcursor
    rw [hleft] at hrest
    rw [Records.auditPages, hread, ok_bind, hmore, hrecords]
    generalize behind AuditRecord.id after s.audit.rows = left at hrest ⊢
    -- the page and what comes behind it are what was left
    have hseam : left.take limit ++ left.drop limit = left := List.take_append_drop limit left
    by_cases hlong : limit < left.length
    · rw [if_pos (decide_eq_true hlong)]
      rcases hrest with hdone | ⟨hlength, rows, hrows, hpart⟩
      · left
        rw [hdone, ok_bind]
        show Except.ok (left.take limit ++ left.drop limit, false) = Except.ok (left, false)
        rw [hseam]
      · right
        rw [hrows, ok_bind]
        rw [List.length_drop] at hlength
        have hcount : turns.length + 1 ≤ left.length := by omega
        refine ⟨hcount, _, rfl, ?_⟩
        have hjoined := (List.prefix_append_right_inj (left.take limit)).mpr hpart
        rwa [hseam] at hjoined
    · left
      rw [if_neg (by simpa using hlong), List.take_of_length_le (Nat.not_lt.mp hlong)]

/-- **Accounting**: in every state that a new store can reach, the account changes that were
    committed are the rows that were appended for them and the filtered ones; each call is
    counted with what it commits. The retained rows are those between the pruned mark and the
    next id, their number is the stored counter and within the capacity, and pages return what
    is behind their cursor once and in order. -/
theorem audit_accounting (c : Crypto) (json : AuditPolicy → Bytes) (f : Format Config)
    (hjson : (json AuditPolicy.default).length ≤ 65536) {accounts : Db} {nowMs : Nat}
    (hnow : nowMs ≤ maxSafeId) (haccounts : accounts.users.size ≤ maxSafeId)
    {authorityId : Bytes} {calls : List Call}
    (hrun : (records c json f).run (Records.created f accounts nowMs authorityId) calls = some s) :
    mutations c json f (Records.created f accounts nowMs authorityId) calls =
        accountRows c json f (Records.created f accounts nowMs authorityId) calls +
          s.audit.filteredTotal ∧
      (∀ call, Accounted c s (s.next c json f call) call (s.committed c json f call)) ∧
      (∀ id, (∃ row ∈ s.audit.rows, row.id = id) ↔
        s.audit.prunedThrough < id ∧ id < s.audit.nextAuditId) ∧
      s.audit.rows.Pairwise (fun a b => a.id < b.id) ∧
      s.audit.rows.length = s.audit.storedRecords ∧ s.audit.storedRecords ≤ auditCapacity ∧
      ∀ authority turns, (∀ turn ∈ turns, (1 ≤ turn.2 ∧ turn.2 ≤ 100) ∧
        ∃ actor, authorize c s.accounts turn.1 authority = .ok actor) →
        ∀ after, s.audit.prunedThrough ≤ after → after ≤ maxSafeId →
          s.auditPages c json authority after turns =
              .ok (behind AuditRecord.id after s.audit.rows, false) ∨
            turns.length ≤ (behind AuditRecord.id after s.audit.rows).length ∧
              ∃ rows, s.auditPages c json authority after turns = .ok (rows, true) ∧
                rows <+: behind AuditRecord.id after s.audit.rows := by
  have hinitial : (Records.created f accounts nowMs authorityId).audit.Sound json :=
    initial_sound json hjson hnow haccounts
  -- every call keeps the history sound, which gives all of the statement but the totals
  have hstep : ∀ (s : Records) call s', s.audit.Sound json →
      (records c json f).step s call = some s' → s'.audit.Sound json := by
    intro s call s' hsound hstep
    rw [← Option.some.inj hstep]
    exact (next_accounted hsound call).1
  have hsound : s.audit.Sound json := Machine.run_invariant hstep hinitial hrun
  have htotals := totals hinitial hrun
  refine ⟨htotals, fun call => (next_accounted hsound call).2, hsound.exists_row, hsound.pairwise,
    hsound.length_rows, hsound.capacity, ?_⟩
  exact fun authority turns hturns after _ hafter => auditPages_eq hsound hturns hafter

/-- An account is created behind the first one, and counted. -/
theorem audit_accounting_create :
    ∃ s, (records plainCrypto policyJson noteFormat).run emptyStore
        [.bootstrap 0 (ascii "root") rootPassword [1],
          .create 0 0 .system (ascii "anna") rootPassword .viewer [2]] = some s ∧
      s.audit.storedRecords = 3 ∧ s.audit.rows.length = s.audit.storedRecords ∧
      mutations plainCrypto policyJson noteFormat emptyStore
        [.bootstrap 0 (ascii "root") rootPassword [1],
          .create 0 0 .system (ascii "anna") rootPassword .viewer [2]] =
        accountRows plainCrypto policyJson noteFormat emptyStore
          [.bootstrap 0 (ascii "root") rootPassword [1],
            .create 0 0 .system (ascii "anna") rootPassword .viewer [2]] +
          s.audit.filteredTotal := by
  obtain ⟨s, hs⟩ : ∃ s, (records plainCrypto policyJson noteFormat).run emptyStore
      [.bootstrap 0 (ascii "root") rootPassword [1],
        .create 0 0 .system (ascii "anna") rootPassword .viewer [2]] = some s := ⟨_, rfl⟩
  have hstored : s.audit.storedRecords = 3 := by
    obtain rfl := Option.some.inj hs
    decide +kernel
  obtain ⟨htotals, -, -, -, hlength, -⟩ := audit_accounting plainCrypto policyJson noteFormat
    (by decide +kernel) (Nat.zero_le _) (Nat.zero_le _) hs
  exact ⟨s, hs, hstored, hlength, htotals⟩

/-! ## The journal -/

theorem Effect.journal_step (h : Effect c json f s call s' accepted)
    (hsound : s.journal.Sound f) :
    s'.journal.Sound f ∧ Journal.Step s.journal s'.journal := by
  cases h with
  | refused => exact ⟨hsound, Journal.Step.refl _⟩
  | bootstrap h haction happended => exact ⟨hsound, Journal.Step.refl _⟩
  | mutation h haction htarget haudit => exact ⟨hsound, Journal.Step.refl _⟩
  | session h => exact ⟨hsound, Journal.Step.refl _⟩
  | setAuditPolicy h => exact ⟨hsound, Journal.Step.refl _⟩
  | pruneAudit h => exact ⟨hsound, Journal.Step.refl _⟩
  | journal h =>
    cases h with
    | accept h =>
      obtain ⟨hsound', hstep, -⟩ := acceptConfig_step hsound h
      exact ⟨hsound', hstep⟩
    | finish h => exact finishConfig_step hsound h
    | prepare h =>
      obtain ⟨hsound', hstep, -⟩ := prepareConfigRelease_step hsound h
      exact ⟨hsound', hstep⟩
    | acknowledge h =>
      obtain ⟨hsound', hstep, -⟩ := acknowledgeConfigRelease_step hsound h
      exact ⟨hsound', hstep⟩
  | pruneConfigOperations h haction happended =>
    obtain ⟨hsound', hstep, -⟩ := pruneConfigOperations_step hsound h
    exact ⟨hsound', hstep⟩

theorem next_journal (hsound : s.journal.Sound f) (call : Call) :
    (s.next c json f call).journal.Sound f ∧
      Journal.Step s.journal (s.next c json f call).journal := by
  rcases @next_cases _ c json f s call with ⟨e, -, hsame⟩ | ⟨accepted, -, heffect⟩
  · rw [hsame]
    exact ⟨hsound, Journal.Step.refl _⟩
  · exact heffect.journal_step hsound

/-- **Run**: the journal stays sound, and rows and releases keep what they have become. -/
theorem run_journal {calls : List Call} (hsound : s.journal.Sound f)
    (hrun : (records c json f).run s calls = some s') :
    s'.journal.Sound f ∧ Journal.Follows s.journal s'.journal := by
  have hinv : ∀ (s : Records) call s', s.journal.Sound f →
      (records c json f).step s call = some s' → s'.journal.Sound f := by
    intro s call s' hsound hstep
    rw [← Option.some.inj hstep]
    exact (next_journal hsound call).1
  have hfollows : ∀ (s : Records) call s', s.journal.Sound f →
      (records c json f).step s call = some s' → Journal.Follows s.journal s'.journal := by
    intro s call s' hsound hstep
    rw [← Option.some.inj hstep]
    exact (next_journal hsound call).2.follows
  exact ⟨Machine.run_invariant hinv hsound hrun,
    Machine.run_relation (fun s => s.journal.Sound f)
      (fun s s' => Journal.Follows s.journal s'.journal) (fun s => Journal.Follows.refl s.journal)
      (fun _ _ _ => Journal.Follows.trans) hinv hfollows hsound hrun⟩

theorem records_prepare_eq_ok {now nowMs : Nat} {authority : MutationAuthority}
    {randomId operationId : Bytes} {receipt : SequencedCommitReceipt} {work : ConfigReleaseWork}
    (h : s.prepareConfigRelease c f now nowMs authority randomId operationId receipt =
      .ok (s', work)) :
    prepareConfigRelease f s.journal nowMs randomId operationId receipt =
      .ok (s'.journal, work) := by
  simp only [Records.prepareConfigRelease, bind_eq_ok] at h
  obtain ⟨_, -, actor, -, ⟨journal, found⟩, hjournal, h⟩ := h
  obtain ⟨rfl, rfl⟩ := ok_pair_inj h
  exact hjournal

/-- **Journal**: in every state that a new store can reach, the ids ascend and the next one is
    new; the counter and the digest are those of the retained rows. Later on a row leaves the
    accepted state at most once, and no call drops an unresolved row. A release that is prepared
    twice is the same release, and what is acknowledged was prepared. A prune with a stale id or
    revision changes nothing. -/
theorem config_journal (c : Crypto) (json : AuditPolicy → Bytes) (f : Format Config)
    {accounts : Db} {nowMs : Nat} {authorityId : Bytes} {calls : List Call}
    (hrun : (records c json f).run (Records.created f accounts nowMs authorityId) calls = some s) :
    s.journal.Sound f ∧
      (∀ now nowMs authority randomId request s' record,
        s.acceptConfig c f now nowMs authority randomId request = .ok (s', record) →
        record.id = s.journal.nextId ∧ s'.journal.nextId = s.journal.nextId + 1) ∧
      (∀ later s', (records c json f).run s later = some s' →
        Journal.Follows s.journal s'.journal) ∧
      (∀ call, Journal.Step s.journal (s.next c json f call).journal) ∧
      (∀ now nowMs authority randomId operationId receipt s₁ work,
        s.prepareConfigRelease c f now nowMs authority randomId operationId receipt =
          .ok (s₁, work) →
        ∀ later s₂, (records c json f).run s₁ later = some s₂ →
        ∀ now' nowMs' authority' randomId' receipt' s₃ work',
          s₂.prepareConfigRelease c f now' nowMs' authority' randomId' operationId receipt' =
            .ok (s₃, work') →
          work'.releaseId = work.releaseId ∧ work'.receipt = work.receipt) ∧
      (∀ nowMs work s' work', s.acknowledgeConfigRelease f nowMs work = .ok (s', work') →
        ∃ current, findWork f s.journal work.receipt.stamp.operationId = .ok current ∧
          current.releaseId = work.releaseId ∧ current.receipt = work.receipt) ∧
      ∀ now nowMs authority throughId expectedLatestId expectedHistoryRevision,
        expectedLatestId ≠ s.journal.nextId - 1 ∨
          expectedHistoryRevision ≠ s.journal.historyRevision →
        s.next c json f (.pruneConfigOperations now nowMs authority throughId expectedLatestId
          expectedHistoryRevision) = s := by
  -- everything below follows from the soundness of the journal in this state
  obtain ⟨hsound, -⟩ := run_journal (journal_initial_sound f authorityId) hrun
  refine ⟨hsound, ?_, fun later s' hlater => (run_journal hsound hlater).2,
    fun call => (next_journal hsound call).2, ?_, ?_, ?_⟩
  · intro now nowMs authority randomId request s' record h
    simp only [Records.acceptConfig, bind_eq_ok] at h
    obtain ⟨_, -, actor, -, ⟨journal, found⟩, hjournal, h⟩ := h
    obtain ⟨rfl, rfl⟩ := ok_pair_inj h
    exact (acceptConfig_step hsound hjournal).2.2
  · intro now nowMs authority randomId operationId receipt s₁ work hfirst later s₂ hlater now'
      nowMs' authority' randomId' receipt' s₃ work' hsecond
    -- the work that was prepared first is found again after every continuation
    obtain ⟨hsound₁, -, hwork⟩ :=
      prepareConfigRelease_step hsound (records_prepare_eq_ok hfirst)
    obtain ⟨hsound₂, hfollows⟩ := run_journal hsound₁ hlater
    obtain ⟨-, hstep, hwork'⟩ :=
      prepareConfigRelease_step hsound₂ (records_prepare_eq_ok hsecond)
    exact findWork_follows hsound₁ (hfollows.trans hstep.follows) hwork hwork'
  · intro nowMs work s' work' h
    obtain ⟨⟨journal, found⟩, hjournal, -⟩ := bind_eq_ok.mp h
    exact (acknowledgeConfigRelease_step hsound hjournal).2.2
  · intro now nowMs authority throughId expectedLatestId expectedHistoryRevision hstale
    -- a prune that succeeded would have seen the current id and revision
    refine next_eq_of_refused fun s' h => ?_
    obtain ⟨⟨next, counts⟩, hcall, -⟩ := map_eq_ok.mp h
    simp only [Records.pruneConfigOperations, bind_eq_ok] at hcall
    obtain ⟨actor, -, ⟨journal, deleted, unresolved⟩, hjournal, -⟩ := hcall
    obtain ⟨-, -, hlatest, hrevision⟩ := pruneConfigOperations_step hsound hjournal
    rcases hstale with hstale | hstale
    · exact hstale hlatest
    · exact hstale hrevision

def localRequest : ConfigAcceptRequest := ⟨1, .localFile, none, 0, List.replicate 64 97⟩

/-- An operation is accepted, and a prune that has not seen it changes nothing. -/
theorem config_journal_accept :
    ∃ s, (records plainCrypto policyJson noteFormat).run emptyStore
        [.acceptConfig 0 0 .system (List.replicate 32 98) localRequest] = some s ∧
      s.journal.storedRecords = 1 ∧ s.journal.Sound noteFormat ∧
      s.next plainCrypto policyJson noteFormat
        (.pruneConfigOperations 0 0 .system 1 0 0) = s := by
  obtain ⟨s, hs⟩ : ∃ s, (records plainCrypto policyJson noteFormat).run emptyStore
      [.acceptConfig 0 0 .system (List.replicate 32 98) localRequest] = some s := ⟨_, rfl⟩
  have hjournal : s.journal.storedRecords = 1 ∧ s.journal.nextId = 2 := by
    obtain rfl := Option.some.inj hs
    decide +kernel
  obtain ⟨hsound, -, -, -, -, -, hstale⟩ :=
    config_journal plainCrypto policyJson noteFormat hs
  refine ⟨s, hs, hjournal.1, hsound, hstale 0 0 .system 1 0 0 (.inl ?_)⟩
  rw [hjournal.2]
  decide

end AdminUsers
