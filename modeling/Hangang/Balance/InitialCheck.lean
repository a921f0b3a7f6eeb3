import Hangang.Balance.EpochFence
import Hangang.Framework.Streak

/-! # The Initial Health Check

    A policy that starts in the checking state withholds a new endpoint until enough
    healthy probes were reported in a row. The streak is counted by the counter that
    ordinary recovery uses, and three flags have to agree with it.

    By the fence, the health of a node is what the feedback about its current epoch
    makes of a new node. So the check is a statement about a list of feedback: the
    pending flag is set exactly as long as the active reports in the list contain no
    streak of the required length, whatever the leases report in between. -/

namespace Balance

/-! ## Reports -/

/-- The report counts as a success. -/
def ActiveReport.healthy (policy : ActiveHealthPolicy) : ActiveReport → Bool
  | .status code => policy.healthyStatuses.contains code
  | .transportFailure => false
  | .timeout => false

def Feedback.activeReport? : Feedback → Option ActiveReport
  | .active report _ => some report
  | .lease _ _ => none

/-- The active probe results about an epoch, in order. -/
def activeReports (epoch : UInt64) (ops : List Op) : List ActiveReport :=
  (ops.filterMap (Op.feedback epoch)).filterMap Feedback.activeReport?

/-! ## What leases leave alone -/

/-- The store is none of the check. -/
def Store.spares : Store → Bool
  | .counter c _ => c != .activeSuccesses
  | .initialCheckPending _ => false
  | _ => true

def Instr.spares : Instr → Bool
  | .store s => s.spares
  | .count c _ reached => c != .activeSuccesses && reached.all Store.spares

/-- Two healths that the check does not tell apart. -/
structure SameCheck (h h' : Health) : Prop where
  pending : h'.initialCheckPending = h.initialCheckPending
  successes : h'.activeSuccesses = h.activeSuccesses

namespace SameCheck

variable {h h' h'' : Health}

theorem refl (h : Health) : SameCheck h h := ⟨rfl, rfl⟩

theorem trans (hab : SameCheck h h') (hbc : SameCheck h' h'') : SameCheck h h'' :=
  ⟨hbc.pending.trans hab.pending, hbc.successes.trans hab.successes⟩

theorem set {c : Counter} (value : UInt64) (hc : (c != .activeSuccesses) = true) :
    SameCheck h (h.set value c) := by
  cases c with
  | activeSuccesses => cases hc
  | _ => exact ⟨rfl, rfl⟩

theorem store (clock : Clock) {s : Store} (hs : s.spares = true) :
    SameCheck h (h.store clock s) := by
  cases s with
  | counter c value => exact set value hs
  | initialCheckPending value => cases hs
  | _ => exact ⟨rfl, rfl⟩

theorem stores (clock : Clock) {stores : List Store} (hs : stores.all Store.spares = true)
    (h : Health) : SameCheck h (stores.foldl (Health.store clock) h) := by
  induction stores generalizing h with
  | nil => exact refl h
  | cons s stores ih =>
    rw [List.all_cons, Bool.and_eq_true] at hs
    exact (store clock hs.1).trans (ih hs.2 _)

theorem exec (clock : Clock) {code : List Instr} (hcode : code.all Instr.spares = true)
    (h : Health) : SameCheck h (h.exec clock code) := by
  induction code generalizing h with
  | nil => exact refl h
  | cons instr code ih =>
    rw [List.all_cons, Bool.and_eq_true] at hcode
    obtain ⟨hinstr, hcode⟩ := hcode
    cases instr with
    | store s => exact (store clock hinstr).trans (ih hcode _)
    | count c threshold reached =>
      obtain ⟨hc, hreached⟩ := Bool.and_eq_true_iff.mp hinstr
      unfold Health.exec
      dsimp only
      split
      · exact ((set _ hc).trans (stores clock hreached _)).trans (ih hcode _)
      · exact (set _ hc).trans (ih hcode _)

end SameCheck

theorem recordBody_spares (config : BalanceConfig) (success : Bool) :
    (recordBody config success).all Instr.spares = true := by
  unfold recordBody
  split
  · rfl
  · split
    · rfl
    · rfl

theorem leaseBodies_spare (config : BalanceConfig) (report : LeaseReport) :
    ∀ body ∈ leaseBodies config report, body.all Instr.spares = true := by
  have hpassive : ∀ passive : PassiveHealthPolicy, ∀ status,
      (if passive.unhealthyStatuses.contains status then
        [Instr.count .passiveHttpFailures passive.unhealthyHttpFailures [.passiveUnhealthy true]]
      else []).all Instr.spares = true := by
    intro passive status
    split
    · rfl
    · rfl
  intro body hbody
  cases report with
  | record success =>
    rw [List.mem_singleton.mp hbody]
    exact recordBody_spares config success
  | httpStatus status =>
    rcases List.mem_cons.mp hbody with rfl | hbody
    · rfl
    · rw [List.mem_singleton.mp hbody]
      split
      · exact hpassive _ status
      · exact recordBody_spares config _
  | transportFailure =>
    rcases List.mem_cons.mp hbody with rfl | hbody
    · rfl
    · rw [List.mem_singleton.mp hbody]
      split
      · rfl
      · exact recordBody_spares config _
  | timeout =>
    rcases List.mem_cons.mp hbody with rfl | hbody
    · rfl
    · rw [List.mem_singleton.mp hbody]
      split
      · rfl
      · exact recordBody_spares config _

/-- **Leases have no say in the check.** -/
theorem applyFeedback_lease (config : BalanceConfig) (h : Health) (report : LeaseReport)
    (clock : Clock) : SameCheck h (applyFeedback config h (.lease report clock)) := by
  have hbodies := leaseBodies_spare config report
  unfold applyFeedback
  dsimp only
  revert hbodies
  generalize leaseBodies config report = bodies
  intro hbodies
  induction bodies generalizing h with
  | nil => exact SameCheck.refl h
  | cons body bodies ih =>
    have hbody := SameCheck.exec clock (hbodies body List.mem_cons_self) h
    exact hbody.trans (ih _ fun other hother => hbodies other (List.mem_cons_of_mem body hother))

/-! ## What probes do -/

theorem exec_append (clock : Clock) (h : Health) (code rest : List Instr) :
    h.exec clock (code ++ rest) = (h.exec clock code).exec clock rest := by
  induction code generalizing h with
  | nil => rfl
  | cons instr code ih =>
    cases instr with
    | store s => exact ih _
    | count c threshold reached => exact ih _

section probes

variable {policy : ActiveHealthPolicy} {h : Health} {report : ActiveReport} (clock : Clock)

/-- The stores of a success that reaches the threshold. -/
def recovered : List Store :=
  [.activeUnhealthy false, .passiveUnhealthy false, .counter .passiveHttpFailures 0,
    .counter .passiveTcpFailures 0, .counter .passiveTimeouts 0, .initialCheckPending false]

theorem exec_count_successes (threshold : UInt32) :
    (h.exec clock [.count .activeSuccesses threshold recovered]).activeSuccesses =
        h.activeSuccesses + 1 ∧
      (h.exec clock [.count .activeSuccesses threshold recovered]).initialCheckPending =
        (h.initialCheckPending && !h.reaches .activeSuccesses threshold) := by
  unfold Health.exec
  dsimp only
  split
  · next hreaches =>
    rw [hreaches]
    exact ⟨rfl, (Bool.and_false _).symm⟩
  · next hreaches =>
    rw [Bool.eq_false_of_not_eq_true hreaches]
    exact ⟨rfl, (Bool.and_true _).symm⟩

theorem reaches_congr {h' : Health} (hsame : SameCheck h h') (threshold : UInt32) :
    h'.reaches .activeSuccesses threshold = h.reaches .activeSuccesses threshold := by
  show decide (_ ≤ h'.activeSuccesses + 1) = decide (_ ≤ h.activeSuccesses + 1)
  rw [hsame.successes]

/-- A success ends the check when the count reaches the threshold. -/
theorem exec_healthy (hhealthy : report.healthy policy = true) :
    (h.exec clock (activeBody policy report)).activeSuccesses = h.activeSuccesses + 1 ∧
      (h.exec clock (activeBody policy report)).initialCheckPending =
        (h.initialCheckPending && !h.reaches .activeSuccesses policy.healthySuccesses) := by
  cases report with
  | transportFailure => cases hhealthy
  | timeout => cases hhealthy
  | status code =>
    have hmem : policy.healthyStatuses.contains code = true := hhealthy
    -- Everything before the count of successes has nothing to do with the check.
    have hbody : activeBody policy (.status code) =
        [.store (.recordObservation .activeProbe .httpResponse (some code)),
          .store (.activeProbeSeen true), .store (.counter .activeHttpFailures 0),
          .store (.counter .activeTcpFailures 0), .store (.counter .activeTimeouts 0)] ++
        [.count .activeSuccesses policy.healthySuccesses recovered] := by
      unfold activeBody
      dsimp only
      rw [if_pos hmem]
      rfl
    rw [hbody, exec_append]
    generalize hfirst : Health.exec clock h _ = h₁
    have hsame : SameCheck h h₁ := by
      rw [← hfirst]
      exact SameCheck.exec clock rfl h
    obtain ⟨hsuccesses, hpending⟩ := exec_count_successes (h := h₁) clock policy.healthySuccesses
    rw [hsuccesses, hpending, hsame.successes, hsame.pending, reaches_congr hsame]
    exact ⟨rfl, rfl⟩

/-- The code after a count that starts again counts failures only. -/
theorem exec_restart {before after : List Instr} (hbefore : before.all Instr.spares = true)
    (hafter : after.all Instr.spares = true) :
    (h.exec clock (before ++ .store (.counter .activeSuccesses 0) :: after)).activeSuccesses = 0 ∧
      (h.exec clock (before ++ .store (.counter .activeSuccesses 0) :: after)).initialCheckPending =
        h.initialCheckPending := by
  have hfirst := SameCheck.exec clock hbefore h
  have hlast := SameCheck.exec clock hafter
    ((h.exec clock before).store clock (.counter .activeSuccesses 0))
  rw [exec_append]
  exact ⟨hlast.successes, hlast.pending.trans hfirst.pending⟩

/-- Every other result starts the count again. -/
theorem exec_other (hchecking : policy.initialState = .checking)
    (hother : report.healthy policy = false) :
    (h.exec clock (activeBody policy report)).activeSuccesses = 0 ∧
      (h.exec clock (activeBody policy report)).initialCheckPending = h.initialCheckPending := by
  cases report with
  | transportFailure =>
    exact @exec_restart h clock [_, _] [_] rfl rfl
  | timeout =>
    exact @exec_restart h clock [_, _] [_] rfl rfl
  | status code =>
    have hnot : ¬ policy.healthyStatuses.contains code = true :=
      fun hmem => Bool.noConfusion (hother.symm.trans hmem)
    unfold activeBody
    dsimp only
    rw [if_neg hnot]
    split
    · exact exec_restart clock rfl rfl
    · rw [if_pos (beq_iff_eq.mpr hchecking)]
      exact exec_restart clock rfl rfl

end probes

/-! ## The check over a list of feedback -/

/-- The flag and the count say what the reports so far are. -/
structure Checked (policy : ActiveHealthPolicy) (reports : List ActiveReport) (h : Health) :
    Prop where
  pending : h.initialCheckPending = false ↔
    Streak.Occurs (ActiveReport.healthy policy) policy.healthySuccesses.toNat reports
  successes : h.initialCheckPending = true →
    h.activeSuccesses.toNat = Streak.trailing (ActiveReport.healthy policy) reports

section checked

variable {config : BalanceConfig} {policy : ActiveHealthPolicy} {reports : List ActiveReport}
  {h h' : Health}

theorem Checked.same (hchecked : Checked policy reports h) (hsame : SameCheck h h') :
    Checked policy reports h' := by
  constructor
  · rw [hsame.pending]
    exact hchecked.pending
  · rw [hsame.pending, hsame.successes]
    exact hchecked.successes

theorem Checked.not_occurs (hchecked : Checked policy reports h)
    (hpending : h.initialCheckPending = true) :
    ¬ Streak.Occurs (ActiveReport.healthy policy) policy.healthySuccesses.toNat reports := by
  intro hoccurs
  rw [hchecked.pending.mpr hoccurs] at hpending
  cases hpending

/-- While the check is pending the count is below the threshold, so it does not wrap. -/
theorem Checked.toNat_succ (hchecked : Checked policy reports h)
    (hpending : h.initialCheckPending = true) :
    (h.activeSuccesses + 1).toNat = h.activeSuccesses.toNat + 1 := by
  have hshort := Streak.trailing_lt_of_not_occurs (hchecked.not_occurs hpending)
  have hcount := hchecked.successes hpending
  have hthreshold : policy.healthySuccesses.toNat < 2 ^ 32 := policy.healthySuccesses.toNat_lt
  rw [UInt64.toNat_add]
  apply Nat.mod_eq_of_lt
  show h.activeSuccesses.toNat + 1 < 2 ^ 64
  omega

theorem Checked.healthy {report : ActiveReport} (hchecked : Checked policy reports h)
    (hhealthy : report.healthy policy = true) (clock : Clock) :
    Checked policy (reports ++ [report]) (h.exec clock (activeBody policy report)) := by
  obtain ⟨hsuccesses, hpending⟩ := exec_healthy (h := h) clock hhealthy
  cases hflag : h.initialCheckPending with
  | false =>
    rw [hflag, Bool.false_and] at hpending
    constructor
    · rw [hpending]
      exact ⟨fun _ => (hchecked.pending.mp hflag).snoc report, fun _ => rfl⟩
    · rw [hpending]
      exact fun hcontra => Bool.noConfusion hcontra
  | true =>
    have hnone := hchecked.not_occurs hflag
    have hcount : (h.activeSuccesses + 1).toNat =
        Streak.trailing (ActiveReport.healthy policy) reports + 1 := by
      rw [hchecked.toNat_succ hflag, hchecked.successes hflag]
    have hreaches : h.reaches .activeSuccesses policy.healthySuccesses = true ↔
        policy.healthySuccesses.toNat ≤
          Streak.trailing (ActiveReport.healthy policy) reports + 1 := by
      rw [← hcount]
      unfold Health.reaches
      rw [decide_eq_true_iff, UInt64.le_iff_toNat_le, UInt32.toNat_toUInt64]
      rfl
    constructor
    · rw [hpending, hflag, Bool.true_and, Bool.not_eq_false', hreaches, Streak.occurs_snoc hhealthy]
      exact ⟨Or.inr, fun h => h.resolve_left hnone⟩
    · intro _
      rw [hsuccesses, hcount, Streak.trailing_snoc hhealthy]

theorem Checked.other {report : ActiveReport} (hchecked : Checked policy reports h)
    (hchecking : policy.initialState = .checking) (hother : report.healthy policy = false)
    (clock : Clock) :
    Checked policy (reports ++ [report]) (h.exec clock (activeBody policy report)) := by
  obtain ⟨hsuccesses, hpending⟩ := exec_other (h := h) clock hchecking hother
  constructor
  · rw [hpending, Streak.occurs_snoc_not hother]
    exact hchecked.pending
  · intro _
    rw [hsuccesses, Streak.trailing_snoc_not hother]
    rfl

/-- **One report.** -/
theorem Checked.feedback (hchecked : Checked policy reports h)
    (hpolicy : config.activeHealth = some policy) (hchecking : policy.initialState = .checking)
    (f : Feedback) :
    Checked policy (reports ++ f.activeReport?.toList) (applyFeedback config h f) := by
  cases f with
  | lease report clock =>
    show Checked policy (reports ++ []) _
    rw [List.append_nil]
    exact hchecked.same (applyFeedback_lease config h report clock)
  | active report clock =>
    show Checked policy (reports ++ [report]) _
    unfold applyFeedback
    dsimp only
    rw [hpolicy]
    cases hhealthy : report.healthy policy with
    | true => exact hchecked.healthy hhealthy clock
    | false => exact hchecked.other hchecking hhealthy clock

theorem checked_fresh (hpolicy : config.activeHealth = some policy)
    (hchecking : policy.initialState = .checking) : Checked policy [] (Health.fresh config) := by
  have hflag : (Health.fresh config).initialCheckPending = true := by
    show config.checking = true
    unfold BalanceConfig.checking
    rw [hpolicy, Option.any_some, hchecking]
    rfl
  constructor
  · rw [hflag]
    exact ⟨fun h => Bool.noConfusion h, fun h => absurd h Streak.not_occurs_nil⟩
  · intro _
    rfl

/-- **All reports**: by induction from the end, the last feedback decides. -/
theorem checked_foldl (hpolicy : config.activeHealth = some policy)
    (hchecking : policy.initialState = .checking) (fs : List Feedback) :
    Checked policy (fs.filterMap Feedback.activeReport?)
      (fs.foldl (applyFeedback config) (Health.fresh config)) := by
  induction fs using List.reverseRecOn with
  | nil => exact checked_fresh hpolicy hchecking
  | append_singleton fs f ih =>
    have hreports : (fs ++ [f]).filterMap Feedback.activeReport? =
        fs.filterMap Feedback.activeReport? ++ f.activeReport?.toList := by
      rw [List.filterMap_append]
      cases f <;> rfl
    rw [hreports, List.foldl_append]
    exact ih.feedback hpolicy hchecking f

end checked

/-! ## The gate -/

/-- **The initial check.** In every run of observed epochs, probe results, leases and
    their feedback, for a policy that starts in the checking state: the node is not
    available before the required number of healthy probe results for its current
    epoch came with no other probe result between them; such a streak, and nothing
    else, ends the check; and what a lease reports leaves it as it is. -/
theorem initial_check (config : BalanceConfig) (policy : ActiveHealthPolicy)
    (hpolicy : config.activeHealth = some policy) (hchecking : policy.initialState = .checking)
    (ops : List Op) (s : System)
    (hrun : (nodeMachine config).run (System.initial config) ops = some s) :
    (∀ nowMs, s.node.health.available config nowMs = true →
      ∃ before run after,
        activeReports s.node.endpointEpoch ops = before ++ run ++ after ∧
        run.length = policy.healthySuccesses.toNat ∧
        ∀ report ∈ run, report.healthy policy = true) ∧
    (s.node.health.initialCheckPending = false ↔
      Streak.Occurs (ActiveReport.healthy policy) policy.healthySuccesses.toNat
        (activeReports s.node.endpointEpoch ops)) ∧
    (∀ epoch report clock s',
      (nodeMachine config).step s (.leaseReport epoch report clock) = some s' →
      s'.node.endpointEpoch = s.node.endpointEpoch ∧
        s'.node.health.initialCheckPending = s.node.health.initialCheckPending) := by
  have hcurrent := (epoch_fenced config ops s hrun).2.2
  -- the health is what the reports of the current epoch make of a new node
  have hchecked : Checked policy (activeReports s.node.endpointEpoch ops) s.node.health :=
    hcurrent ▸ checked_foldl hpolicy hchecking _
  refine ⟨?_, hchecked.pending, ?_⟩
  · intro nowMs havailable
    have hflag : s.node.health.initialCheckPending = false := by
      unfold Health.available at havailable
      simp only [Bool.and_eq_true, Bool.not_eq_true'] at havailable
      exact havailable.1.1.1
    exact (hchecked.pending.mp hflag).exact
  -- feedback does not touch the pending check, whichever epoch it is for
  · intro epoch report clock s' hstep
    have hstep : (if s.leases.contains epoch then
        some { s with node := recordLease config clock s.node epoch report } else none) =
        some s' := hstep
    split at hstep
    · obtain rfl := Option.some.inj hstep
      by_cases heq : s.node.endpointEpoch = epoch
      · show (recordLease config clock s.node epoch report).endpointEpoch = _ ∧ _
        rw [recordLease_current heq]
        exact ⟨rfl, (applyFeedback_lease config s.node.health report clock).pending⟩
      · show (recordLease config clock s.node epoch report).endpointEpoch = _ ∧ _
        rw [recordLease_other heq]
        exact ⟨rfl, rfl⟩
    · cases hstep

def twoProbes : ActiveHealthPolicy := ⟨[200], [503], 2, 1, 1, 1, .checking⟩

def twoProbesConfig : BalanceConfig where
  health := none
  activeHealth := some twoProbes
  passiveHealth := none
  active_conflict := fun _ => rfl
  passive_requires := fun h => Bool.noConfusion h

/-- A neutral status separates two successes, which are then followed by a third. -/
def neutralBetween : List Op :=
  [.observe 1 ⟨0, 0, 0⟩, .activeReport 1 (.status 200) ⟨1, 1, 1⟩,
    .activeReport 1 (.status 302) ⟨2, 2, 2⟩, .activeReport 1 (.status 200) ⟨3, 3, 3⟩]

theorem initial_check_neutralBetween :
    ∃ s s', (nodeMachine twoProbesConfig).run (System.initial twoProbesConfig) neutralBetween =
        some s ∧
      (nodeMachine twoProbesConfig).run (System.initial twoProbesConfig)
        (neutralBetween ++ [.activeReport 1 (.status 200) ⟨4, 4, 4⟩]) = some s' ∧
      s.node.health.available twoProbesConfig 3 = false ∧
      s'.node.health.available twoProbesConfig 4 = true ∧
      Streak.Occurs (ActiveReport.healthy twoProbes) 2
        (activeReports 1 (neutralBetween ++ [.activeReport 1 (.status 200) ⟨4, 4, 4⟩])) := by
  obtain ⟨s, s', hrun, hrun', hwait, hready, hepoch, hflag⟩ : ∃ s s',
      (nodeMachine twoProbesConfig).run (System.initial twoProbesConfig) neutralBetween = some s ∧
      (nodeMachine twoProbesConfig).run (System.initial twoProbesConfig)
        (neutralBetween ++ [.activeReport 1 (.status 200) ⟨4, 4, 4⟩]) = some s' ∧
      s.node.health.available twoProbesConfig 3 = false ∧
      s'.node.health.available twoProbesConfig 4 = true ∧ s'.node.endpointEpoch = 1 ∧
      s'.node.health.initialCheckPending = false := ⟨_, _, rfl, rfl, rfl, rfl, rfl, rfl⟩
  have hcheck := (initial_check twoProbesConfig twoProbes rfl rfl _ s' hrun').2.1.mp hflag
  rw [hepoch] at hcheck
  exact ⟨s, s', hrun, hrun', hwait, hready, hcheck⟩

end Balance
