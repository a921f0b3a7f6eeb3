import Hangang.Balance.Node
import Hangang.Framework.Machine

/-! # Endpoint-Epoch Fencing

    A node outlives the endpoint behind it. Every replacement of the endpoint
    gets a higher epoch, and feedback names the epoch of the endpoint it is
    about, however late it arrives.

    The module takes the operations of a node as atomic steps and shows what the
    fence is for: the health of a node at epoch `e` is the health of a new node
    that has received the feedback about `e`, in order, and nothing else. The
    invariant of `Fenced` has to say more than that: for the epochs to come it
    says that there was no feedback yet, since a lease is granted at the current
    epoch only and a probe report raises the epoch. -/

namespace Balance

/-! ## Operations -/

/-- The part of `Node` that selection and feedback use. -/
structure Node where
  endpointEpoch : UInt64
  health : Health
  admission : UInt64
  deriving DecidableEq, Repr

/-- A node of `Balancer::new`. -/
def Node.new (config : BalanceConfig) : Node := ⟨0, Health.fresh config, MemberAdmission.serving⟩

/-- `ensure_epoch_locked`; the result says whether the node is at the epoch. -/
def ensureEpochLocked (config : BalanceConfig) (clock : Clock) (node : Node) (epoch : UInt64) :
    Bool × Node :=
  if epoch < node.endpointEpoch then (false, node)
  else if node.endpointEpoch == epoch then (true, node)
  else
    (true, { node with
      health := (resetStores config).foldl (Health.store clock) node.health
      endpointEpoch := epoch })

/-- `observe_epoch`. -/
def observeEpoch (config : BalanceConfig) (clock : Clock) (node : Node) (epoch : UInt64) :
    Bool × Node :=
  if node.endpointEpoch == epoch then (true, node)
  else if epoch < node.endpointEpoch then (false, node)
  else ensureEpochLocked config clock node epoch

/-- `record_active_status_for`, `record_active_transport_failure_for` and
    `record_active_timeout_for`. -/
def recordActiveFor (config : BalanceConfig) (clock : Clock) (node : Node) (epoch : UInt64)
    (report : ActiveReport) : Node :=
  match config.activeHealth with
  | none => node
  | some policy =>
    match ensureEpochLocked config clock node epoch with
    | (false, node) => node
    | (true, node) => { node with health := node.health.exec clock (activeBody policy report) }

/-- `available_for`. -/
def availableFor (config : BalanceConfig) (clock : Clock) (node : Node) (epoch : UInt64) : Bool :=
  node.endpointEpoch == epoch &&
    (MemberAdmission.isOpen node.admission && node.health.available config clock.nowMs) &&
    node.endpointEpoch == epoch

/-- `acquire_for`: the node with one more lease. -/
def acquireFor (config : BalanceConfig) (clock : Clock) (node : Node) (epoch : UInt64) :
    Option Node :=
  if availableFor config clock node epoch then
    match MemberAdmission.acquire node.admission with
    | none => none
    | some word =>
      if availableFor config clock { node with admission := word } epoch then
        some { node with admission := word }
      else none
  else none

/-- `with_current_epoch` for a lease of the given epoch. -/
def withCurrentEpoch (epoch : UInt64) (update : Health → Health) (node : Node) : Node :=
  if node.endpointEpoch == epoch then { node with health := update node.health } else node

/-- The feedback methods of a lease of the given epoch. -/
def recordLease (config : BalanceConfig) (clock : Clock) (node : Node) (epoch : UInt64)
    (report : LeaseReport) : Node :=
  (leaseBodies config report).foldl
    (fun node body => withCurrentEpoch epoch (fun h => h.exec clock body) node) node

/-! ## The system -/

/-- A node and the epochs of the leases that are out. -/
structure System where
  node : Node
  leases : List UInt64
  deriving DecidableEq, Repr

inductive Op where
  | observe (epoch : UInt64) (clock : Clock)
  | activeReport (epoch : UInt64) (report : ActiveReport) (clock : Clock)
  | acquire (epoch : UInt64) (clock : Clock)
  | leaseReport (epoch : UInt64) (report : LeaseReport) (clock : Clock)
  | dropLease (epoch : UInt64)
  | retire
  deriving DecidableEq, Repr

def System.initial (config : BalanceConfig) : System := ⟨Node.new config, []⟩

/-- Each operation is one step. A lease reports and is dropped only after it was
    granted. -/
def nodeMachine (config : BalanceConfig) : Machine System Op where
  step s op :=
    match op with
    | .observe epoch clock =>
      some { s with node := (observeEpoch config clock s.node epoch).2 }
    | .activeReport epoch report clock =>
      some { s with node := recordActiveFor config clock s.node epoch report }
    | .acquire epoch clock =>
      match acquireFor config clock s.node epoch with
      | none => some s
      | some node => some ⟨node, epoch :: s.leases⟩
    | .leaseReport epoch report clock =>
      if s.leases.contains epoch then
        some { s with node := recordLease config clock s.node epoch report }
      else none
    | .dropLease epoch =>
      if s.leases.contains epoch then
        (MemberAdmission.release s.node.admission).map fun word =>
          ⟨{ s.node with admission := word }, s.leases.erase epoch⟩
      else none
    | .retire =>
      some { s with
        node := { s.node with admission := MemberAdmission.retire s.node.admission } }

/-! ## Replay -/

inductive Feedback where
  | active (report : ActiveReport) (clock : Clock)
  | lease (report : LeaseReport) (clock : Clock)
  deriving DecidableEq, Repr

/-- The feedback about `epoch` in an operation. -/
def Op.feedback (epoch : UInt64) : Op → Option Feedback
  | .activeReport e report clock => if e = epoch then some (.active report clock) else none
  | .leaseReport e report clock => if e = epoch then some (.lease report clock) else none
  | _ => none

/-- What feedback does to the health of a node that is at the epoch. -/
def applyFeedback (config : BalanceConfig) (h : Health) : Feedback → Health
  | .active report clock =>
    match config.activeHealth with
    | none => h
    | some policy => h.exec clock (activeBody policy report)
  | .lease report clock =>
    (leaseBodies config report).foldl (fun h body => h.exec clock body) h

/-- The health of a new node after the feedback about `epoch`, in order. -/
def replay (config : BalanceConfig) (epoch : UInt64) (ops : List Op) : Health :=
  (ops.filterMap (Op.feedback epoch)).foldl (applyFeedback config) (Health.fresh config)

theorem replay_snoc_none {config : BalanceConfig} {epoch : UInt64} {op : Op}
    (h : op.feedback epoch = none) (ops : List Op) :
    replay config epoch (ops ++ [op]) = replay config epoch ops := by
  simp [replay, List.filterMap_append, h]

theorem replay_snoc_some {config : BalanceConfig} {epoch : UInt64} {op : Op} {f : Feedback}
    (h : op.feedback epoch = some f) (ops : List Op) :
    replay config epoch (ops ++ [op]) = applyFeedback config (replay config epoch ops) f := by
  simp [replay, List.filterMap_append, h]

/-! ## What each operation does

    One lemma for each way the epoch of an operation can compare with the epoch
    of the node. -/

section operations

variable {config : BalanceConfig} {clock : Clock} {node : Node} {epoch : UInt64}

theorem ensureEpochLocked_stale (h : epoch < node.endpointEpoch) :
    ensureEpochLocked config clock node epoch = (false, node) := by
  rw [ensureEpochLocked, if_pos h]

theorem ensureEpochLocked_current (h : node.endpointEpoch = epoch) :
    ensureEpochLocked config clock node epoch = (true, node) := by
  have hnot : ¬ epoch < node.endpointEpoch := by grind
  rw [ensureEpochLocked, if_neg hnot, if_pos (beq_iff_eq.mpr h)]

theorem ensureEpochLocked_newer (h : node.endpointEpoch < epoch) :
    ensureEpochLocked config clock node epoch =
      (true, { node with health := Health.fresh config, endpointEpoch := epoch }) := by
  have hnot : ¬ epoch < node.endpointEpoch := by grind
  have hne : ¬ (node.endpointEpoch == epoch) = true := by
    rw [beq_iff_eq]
    grind
  rw [ensureEpochLocked, if_neg hnot, if_neg hne, foldl_resetStores]

theorem observeEpoch_old (h : epoch ≤ node.endpointEpoch) :
    (observeEpoch config clock node epoch).2 = node := by
  unfold observeEpoch
  by_cases heq : node.endpointEpoch = epoch
  · rw [if_pos (beq_iff_eq.mpr heq)]
  · have hlt : epoch < node.endpointEpoch := by grind
    rw [if_neg (by simpa using heq), if_pos hlt]

theorem observeEpoch_newer (h : node.endpointEpoch < epoch) :
    (observeEpoch config clock node epoch).2 =
      { node with health := Health.fresh config, endpointEpoch := epoch } := by
  unfold observeEpoch
  have hne : ¬ (node.endpointEpoch == epoch) = true := by
    rw [beq_iff_eq]
    grind
  have hnot : ¬ epoch < node.endpointEpoch := by grind
  rw [if_neg hne, if_neg hnot, ensureEpochLocked_newer h]

variable {report : ActiveReport}

theorem recordActiveFor_stale (h : epoch < node.endpointEpoch) :
    recordActiveFor config clock node epoch report = node := by
  unfold recordActiveFor
  split
  · rfl
  · rw [ensureEpochLocked_stale h]

theorem recordActiveFor_current (h : node.endpointEpoch = epoch) :
    recordActiveFor config clock node epoch report =
      { node with health := applyFeedback config node.health (.active report clock) } := by
  unfold recordActiveFor applyFeedback
  split
  · rfl
  · rw [ensureEpochLocked_current h]

theorem recordActiveFor_newer {policy : ActiveHealthPolicy}
    (hactive : config.activeHealth = some policy) (h : node.endpointEpoch < epoch) :
    recordActiveFor config clock node epoch report =
      { node with
        health := applyFeedback config (Health.fresh config) (.active report clock)
        endpointEpoch := epoch } := by
  unfold recordActiveFor applyFeedback
  rw [hactive, ensureEpochLocked_newer h]

/-- Without a policy a probe report is nothing, whatever its epoch. -/
theorem recordActiveFor_none (hactive : config.activeHealth = none) :
    recordActiveFor config clock node epoch report = node := by
  rw [recordActiveFor, hactive]

theorem foldl_withCurrentEpoch_other (bodies : List (List Instr))
    (h : node.endpointEpoch ≠ epoch) :
    bodies.foldl (fun node body => withCurrentEpoch epoch (fun h => h.exec clock body) node) node =
      node := by
  induction bodies with
  | nil => rfl
  | cons body bodies ih =>
    rw [List.foldl_cons, withCurrentEpoch, if_neg (by simpa using h), ih]

theorem foldl_withCurrentEpoch_current (bodies : List (List Instr)) (h : node.endpointEpoch = epoch) :
    bodies.foldl (fun node body => withCurrentEpoch epoch (fun h => h.exec clock body) node) node =
      { node with health := bodies.foldl (fun h body => h.exec clock body) node.health } := by
  induction bodies generalizing node with
  | nil => rfl
  | cons body bodies ih =>
    have hstep : withCurrentEpoch epoch (fun h => h.exec clock body) node =
        { node with health := node.health.exec clock body } := by
      rw [withCurrentEpoch, if_pos (beq_iff_eq.mpr h)]
    rw [List.foldl_cons, hstep, List.foldl_cons]
    exact ih h

theorem recordLease_other {report : LeaseReport} (h : node.endpointEpoch ≠ epoch) :
    recordLease config clock node epoch report = node :=
  foldl_withCurrentEpoch_other _ h

theorem recordLease_current {report : LeaseReport} (h : node.endpointEpoch = epoch) :
    recordLease config clock node epoch report =
      { node with health := applyFeedback config node.health (.lease report clock) } :=
  foldl_withCurrentEpoch_current _ h

/-- A lease is granted at the epoch of the node and leaves its health alone. -/
theorem acquireFor_eq_some {node' : Node} (h : acquireFor config clock node epoch = some node') :
    node.endpointEpoch = epoch ∧ node'.endpointEpoch = node.endpointEpoch ∧
      node'.health = node.health := by
  unfold acquireFor at h
  split at h
  · next havail =>
    have hepoch : node.endpointEpoch = epoch := by
      unfold availableFor at havail
      simp only [Bool.and_eq_true, beq_iff_eq] at havail
      exact havail.2
    split at h
    · simp at h
    · split at h
      · obtain rfl := Option.some.inj h
        exact ⟨hepoch, rfl, rfl⟩
      · simp at h
  · simp at h

end operations

/-! ## The fence -/

/-- The invariant after the operations `ops`. -/
structure Fenced (config : BalanceConfig) (ops : List Op) (s : System) : Prop where
  /-- No lease is from an epoch to come. -/
  leases : ∀ e ∈ s.leases, e ≤ s.node.endpointEpoch
  /-- The health is that of the current endpoint. -/
  current : s.node.health = replay config s.node.endpointEpoch ops
  /-- Nothing has happened yet at the epochs to come. -/
  future : ∀ e, s.node.endpointEpoch < e → replay config e ops = Health.fresh config

theorem fenced_initial (config : BalanceConfig) : Fenced config [] (System.initial config) where
  leases := by simp [System.initial]
  current := rfl
  future := fun _ _ => rfl

section step

variable {config : BalanceConfig} {ops : List Op} {s s' : System} {op : Op}

/-- An operation that is not feedback and leaves epoch and health alone. -/
theorem Fenced.of_same (h : Fenced config ops s) (hop : ∀ e, op.feedback e = none)
    (hepoch : s'.node.endpointEpoch = s.node.endpointEpoch)
    (hhealth : s'.node.health = s.node.health)
    (hleases : ∀ e ∈ s'.leases, e ∈ s.leases ∨ e = s.node.endpointEpoch) :
    Fenced config (ops ++ [op]) s' where
  leases := by
    intro e he
    rcases hleases e he with he | rfl
    · rw [hepoch]
      exact h.leases e he
    · rw [hepoch]
      exact UInt64.le_refl _
  current := by rw [replay_snoc_none (hop _), hepoch, hhealth, h.current]
  future := by
    intro e he
    rw [replay_snoc_none (hop e)]
    exact h.future e (hepoch ▸ he)

variable {epoch : UInt64}

/-- Feedback about another epoch than the current one and those to come. -/
theorem Fenced.of_stale (h : Fenced config ops s) (hop : ∀ e, e ≠ epoch → op.feedback e = none)
    (hstale : epoch < s.node.endpointEpoch) :
    Fenced config (ops ++ [op]) s where
  leases := h.leases
  current := by
    have hne : s.node.endpointEpoch ≠ epoch := by grind
    rw [replay_snoc_none (hop _ hne)]
    exact h.current
  future := by
    intro e he
    have hne : e ≠ epoch := by grind
    rw [replay_snoc_none (hop _ hne)]
    exact h.future e he

/-- Feedback about an epoch that the node is at, or is at from now on. -/
theorem Fenced.of_current (h : Fenced config ops s) {f : Feedback}
    (hop : op.feedback epoch = some f) (hother : ∀ e, e ≠ epoch → op.feedback e = none)
    (hle : s.node.endpointEpoch ≤ epoch) (hleases : s'.leases = s.leases)
    (hepoch : s'.node.endpointEpoch = epoch)
    (hhealth : s'.node.health = applyFeedback config (replay config epoch ops) f) :
    Fenced config (ops ++ [op]) s' where
  leases := by
    intro e he
    have := h.leases e (hleases ▸ he)
    grind
  current := by rw [hepoch, replay_snoc_some hop, hhealth]
  future := by
    intro e he
    have hne : e ≠ epoch := by grind
    rw [replay_snoc_none (hother e hne)]
    exact h.future e (by grind)

theorem fenced_observe (h : Fenced config ops s) (epoch : UInt64) (clock : Clock) :
    Fenced config (ops ++ [.observe epoch clock])
      { s with node := (observeEpoch config clock s.node epoch).2 } := by
  by_cases hnew : s.node.endpointEpoch < epoch
  · rw [observeEpoch_newer hnew]
    refine ⟨fun e he => ?_, ?_, fun e he => ?_⟩
    · have := h.leases e he
      show e ≤ epoch
      grind
    · -- the node starts afresh at an epoch without feedback
      show Health.fresh config = replay config epoch (ops ++ [.observe epoch clock])
      rw [replay_snoc_none rfl, h.future epoch hnew]
    · have he' : epoch < e := he
      rw [replay_snoc_none rfl]
      exact h.future e (by grind)
  · rw [observeEpoch_old (by grind)]
    exact h.of_same (fun _ => rfl) rfl rfl fun e he => Or.inl he

theorem fenced_activeReport (h : Fenced config ops s) (epoch : UInt64) (report : ActiveReport)
    (clock : Clock) :
    Fenced config (ops ++ [.activeReport epoch report clock])
      { s with node := recordActiveFor config clock s.node epoch report } := by
  have hself : (Op.activeReport epoch report clock).feedback epoch =
      some (.active report clock) := if_pos rfl
  have hother : ∀ e, e ≠ epoch → (Op.activeReport epoch report clock).feedback e = none :=
    fun e he => if_neg (Ne.symm he)
  by_cases hstale : epoch < s.node.endpointEpoch
  · rw [recordActiveFor_stale hstale]
    exact h.of_stale hother hstale
  by_cases hnew : s.node.endpointEpoch < epoch
  · cases hactive : config.activeHealth with
    | none =>
      -- a report without a policy does nothing, now or in the replay
      rw [recordActiveFor_none hactive]
      refine ⟨h.leases, ?_, fun e he => ?_⟩
      · rw [replay_snoc_none (hother _ (by grind))]
        exact h.current
      · by_cases heq : e = epoch
        · rw [heq, replay_snoc_some hself, applyFeedback, hactive]
          exact h.future epoch hnew
        · rw [replay_snoc_none (hother e heq)]
          exact h.future e he
    | some policy =>
      rw [recordActiveFor_newer hactive hnew]
      exact h.of_current hself hother (by grind) rfl rfl (by rw [h.future epoch hnew])
  · have heq : s.node.endpointEpoch = epoch := by grind
    rw [recordActiveFor_current heq]
    have hreplay : replay config epoch ops = s.node.health := by rw [h.current, heq]
    exact h.of_current hself hother (by grind) rfl heq (by rw [hreplay])

theorem fenced_leaseReport (h : Fenced config ops s) (hmem : epoch ∈ s.leases)
    (report : LeaseReport) (clock : Clock) :
    Fenced config (ops ++ [.leaseReport epoch report clock])
      { s with node := recordLease config clock s.node epoch report } := by
  have hself : (Op.leaseReport epoch report clock).feedback epoch =
      some (.lease report clock) := if_pos rfl
  have hother : ∀ e, e ≠ epoch → (Op.leaseReport epoch report clock).feedback e = none :=
    fun e he => if_neg (Ne.symm he)
  have hle := h.leases epoch hmem
  by_cases heq : s.node.endpointEpoch = epoch
  · rw [recordLease_current heq]
    have hreplay : replay config epoch ops = s.node.health := by rw [h.current, heq]
    exact h.of_current hself hother (by grind) rfl heq (by rw [hreplay])
  · rw [recordLease_other heq]
    exact h.of_stale hother (by grind)

/-- **Step lemma.** -/
theorem fenced_step (h : Fenced config ops s) (hstep : (nodeMachine config).step s op = some s') :
    Fenced config (ops ++ [op]) s' := by
  simp only [nodeMachine] at hstep
  match op with
  | .observe epoch clock =>
    obtain rfl := Option.some.inj hstep
    exact fenced_observe h epoch clock
  | .activeReport epoch report clock =>
    obtain rfl := Option.some.inj hstep
    exact fenced_activeReport h epoch report clock
  -- a lease is given for the current epoch only
  | .acquire epoch clock =>
    dsimp only at hstep
    split at hstep
    · obtain rfl := Option.some.inj hstep
      exact h.of_same (fun _ => rfl) rfl rfl fun e he => Or.inl he
    · next node hacquire =>
      obtain rfl := Option.some.inj hstep
      obtain ⟨hepoch, hkeep, hhealth⟩ := acquireFor_eq_some hacquire
      refine h.of_same (fun _ => rfl) hkeep hhealth fun e he => ?_
      rcases List.mem_cons.mp he with rfl | he
      · exact Or.inr hepoch.symm
      · exact Or.inl he
  | .leaseReport epoch report clock =>
    dsimp only at hstep
    split at hstep
    · next hmem =>
      obtain rfl := Option.some.inj hstep
      exact fenced_leaseReport h (List.contains_iff_mem.mp hmem) report clock
    · simp at hstep
  | .dropLease epoch =>
    dsimp only at hstep
    split at hstep
    · obtain ⟨word, -, rfl⟩ := Option.map_eq_some_iff.mp hstep
      exact h.of_same (fun _ => rfl) rfl rfl fun e he => Or.inl (List.mem_of_mem_erase he)
    · simp at hstep
  | .retire =>
    obtain rfl := Option.some.inj hstep
    exact h.of_same (fun _ => rfl) rfl rfl fun e he => Or.inl he

theorem endpointEpoch_le (hstep : (nodeMachine config).step s op = some s') :
    s.node.endpointEpoch ≤ s'.node.endpointEpoch := by
  simp only [nodeMachine] at hstep
  match op with
  | .observe epoch clock =>
    obtain rfl := Option.some.inj hstep
    by_cases hnew : s.node.endpointEpoch < epoch
    · rw [observeEpoch_newer hnew]
      exact UInt64.le_of_lt hnew
    · rw [observeEpoch_old (by grind)]
      exact UInt64.le_refl _
  | .activeReport epoch report clock =>
    obtain rfl := Option.some.inj hstep
    -- a report of an older epoch is dropped; only a newer one raises the epoch
    by_cases hstale : epoch < s.node.endpointEpoch
    · rw [recordActiveFor_stale hstale]
      exact UInt64.le_refl _
    by_cases hnew : s.node.endpointEpoch < epoch
    · cases hactive : config.activeHealth with
      | none =>
        rw [recordActiveFor_none hactive]
        exact UInt64.le_refl _
      | some policy =>
        rw [recordActiveFor_newer hactive hnew]
        exact UInt64.le_of_lt hnew
    · rw [recordActiveFor_current (by grind)]
      exact UInt64.le_refl _
  | .acquire epoch clock =>
    dsimp only at hstep
    split at hstep
    · obtain rfl := Option.some.inj hstep
      exact UInt64.le_refl _
    · next node hacquire =>
      obtain rfl := Option.some.inj hstep
      obtain ⟨-, hkeep, -⟩ := acquireFor_eq_some hacquire
      exact hkeep ▸ UInt64.le_refl _
  | .leaseReport epoch report clock =>
    dsimp only at hstep
    split at hstep
    · obtain rfl := Option.some.inj hstep
      -- the report of a lease counts for its own epoch only, and never raises it
      by_cases heq : s.node.endpointEpoch = epoch
      · rw [recordLease_current heq]
        exact UInt64.le_refl _
      · rw [recordLease_other heq]
        exact UInt64.le_refl _
    · simp at hstep
  | .dropLease epoch =>
    dsimp only at hstep
    split at hstep
    · obtain ⟨word, -, rfl⟩ := Option.map_eq_some_iff.mp hstep
      exact UInt64.le_refl _
    · simp at hstep
  | .retire =>
    obtain rfl := Option.some.inj hstep
    exact UInt64.le_refl _

/-- Feedback about an epoch that the node has left changes nothing at all. -/
theorem step_stale {f : Feedback} (hop : op.feedback epoch = some f)
    (hstale : epoch < s.node.endpointEpoch) (hstep : (nodeMachine config).step s op = some s') :
    s' = s := by
  simp only [nodeMachine] at hstep
  match op with
  | .activeReport e report clock =>
    obtain rfl := Option.some.inj hstep
    have he : e = epoch := (Option.ite_none_right_eq_some.mp hop).1
    rw [recordActiveFor_stale (he ▸ hstale)]
  | .leaseReport e report clock =>
    have he : e = epoch := (Option.ite_none_right_eq_some.mp hop).1
    dsimp only at hstep
    split at hstep
    · obtain rfl := Option.some.inj hstep
      rw [recordLease_other (by grind)]
    · simp at hstep

end step

/-- **Endpoint-epoch fencing.** In every run the epoch never decreases, feedback
    about an epoch that the node has left has no effect, and the health is what a
    new node makes of the feedback about the current epoch. -/
theorem epoch_fenced (config : BalanceConfig) (ops : List Op) (s : System)
    (hrun : (nodeMachine config).run (System.initial config) ops = some s) :
    (∀ before after s₀, ops = before ++ after →
      (nodeMachine config).run (System.initial config) before = some s₀ →
      s₀.node.endpointEpoch ≤ s.node.endpointEpoch) ∧
    (∀ op epoch f s', op.feedback epoch = some f → epoch < s.node.endpointEpoch →
      (nodeMachine config).step s op = some s' → s'.node.health = s.node.health) ∧
    s.node.health = replay config s.node.endpointEpoch ops := by
  refine ⟨?_, ?_, ?_⟩
  · intro before after s₀ hops hbefore
    rw [hops, Machine.run_append_eq_some] at hrun
    obtain ⟨t, ht, hafter⟩ := hrun
    obtain rfl := Option.some.inj (hbefore.symm.trans ht)
    exact Machine.run_relation (fun _ => True)
      (fun s s' => s.node.endpointEpoch ≤ s'.node.endpointEpoch) (fun _ => UInt64.le_refl _) (fun _ _ _ => UInt64.le_trans) (fun _ _ _ _ _ => trivial)
      (fun _ _ _ _ hstep => endpointEpoch_le hstep) trivial hafter
  · intro op epoch f s' hop hstale hstep
    rw [step_stale hop hstale hstep]
  · have hfenced : Fenced config ops s :=
      Machine.run_history (fun ls s op s' h hstep => fenced_step h hstep)
        (fenced_initial config) hrun
    exact hfenced.current

/-- Active checks that start in the checking state, with passive failures. -/
def checkedConfig : BalanceConfig where
  health := none
  activeHealth := some ⟨[200], [503], 1, 1, 1, 1, .checking⟩
  passiveHealth := some ⟨[502], 1, 1, 1⟩
  active_conflict := fun _ => rfl
  passive_requires := fun _ => ⟨rfl, rfl⟩

/-- A lease of the first endpoint reports a failure after the second endpoint has
    been observed. -/
def lateReport : List Op :=
  [.observe 1 ⟨0, 0, 0⟩, .activeReport 1 (.status 200) ⟨5, 5, 5⟩, .acquire 1 ⟨6, 6, 6⟩,
    .observe 2 ⟨7, 7, 7⟩, .activeReport 2 (.status 200) ⟨8, 8, 8⟩,
    .leaseReport 1 (.httpStatus 502) ⟨9, 9, 9⟩]

theorem epoch_fenced_lateReport :
    ∃ s, (nodeMachine checkedConfig).run (System.initial checkedConfig) lateReport = some s ∧
      s.leases = [1] ∧ s.node.endpointEpoch = 2 ∧
      s.node.health.available checkedConfig 9 = true ∧
      s.node.health = replay checkedConfig s.node.endpointEpoch lateReport := by
  refine ⟨_, rfl, rfl, rfl, rfl, ?_⟩
  exact (epoch_fenced checkedConfig lateReport _ rfl).2.2

end Balance
