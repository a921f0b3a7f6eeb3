import Hangang.Kubernetes.Controller

/-! # Freshness of the Reported Authority

    The controller reassesses its authority only when something wakes it, so what it
    reported last is right only as long as a timer is armed before the first kind
    becomes stale. `Health::deadline` arms no timer for a kind whose deadline has been
    reached, whereas `Health::defect` calls a kind stale only after that moment: a
    kind that reaches its deadline between the assessment and the next arming stays
    reported as fresh.

    * **Timely arming**: the condition under which the report is right.
    * **The invariant**: what is reported, what is armed and what is recorded agree
      at every waiting point of the loop.
    * **The theorem**, and the runs in which arming is not timely. -/

namespace Kubernetes

namespace Loop

/-- The loop is entered with a cache. -/
def inner : Loop → Bool
  | .reconcile _ | .enter | .watch _ => true
  | _ => false

end Loop

namespace Phase

def inner : Phase → Bool
  | .arming loop | .assessing _ loop | .reporting loop => loop.inner
  | .entering | .reconciling _ _ | .watching _ _ | .closing _ => true
  | _ => false

/-- No assessment is about to be made. -/
def assessed : Phase → Bool
  | .assessing _ _ => false
  | _ => true

/-- The freshness timer of a waiting point. -/
def timer : Phase → Option (Option Nat)
  | .pausing _ wake _ => some (some wake)
  | .listing staleAt | .reconciling staleAt _ | .watching _ staleAt => some staleAt
  | _ => none

end Phase

namespace Controller

/-! ## Timely arming -/

/-- At an arming under a reported authority, no kind has reached its deadline. -/
def Timely (s : Controller) : Label → Bool
  | .proceed _ =>
    match s.phase with
    | .arming _ => !s.health.reported || s.health.kinds.all fun kind =>
        (s.health.freshAt kind).all fun moment => s.now < moment + s.health.staleAfter
    | _ => true
  | _ => true

theorem lt_of_timely {s : Controller} {jittered : Nat} {loop : Loop}
    (htimely : Timely s (.proceed jittered) = true) (hphase : s.phase = .arming loop)
    (hreported : s.health.reported = true) :
    ∀ kind ∈ s.health.kinds, ∀ moment, s.health.freshAt kind = some moment →
      s.now < moment + s.health.staleAfter := by
  intro kind hkind moment hmoment
  simp only [Timely, hphase, hreported, Bool.not_true, Bool.false_or, List.all_eq_true] at htimely
  have hall := htimely kind hkind
  rw [hmoment, Option.all_some] at hall
  exact of_decide_eq_true hall

/-- The runs in which every arming is timely. -/
def timely : Machine Controller Label := machine.restrict fun s l => Timely s l = true

/-- The controller waits, and the timer that it armed is not due. -/
def Idle (s : Controller) : Prop :=
  ∃ staleAt, s.phase.timer = some staleAt ∧ ∀ t, staleAt = some t → s.now < t

/-- Every kind was confirmed and is complete, a snapshot is published and the latest
    reconciliation was not rejected. -/
structure Authoritative (s : Controller) : Prop where
  fresh : ∀ kind ∈ s.health.kinds, ∃ moment, s.health.freshAt kind = some moment ∧
    s.now ≤ moment + s.health.staleAfter
  complete : ∀ kind ∈ s.health.kinds, kind ∉ s.incomplete
  published : s.lastGood = true
  activated : s.latest ≠ some .rejected

/-! ## The invariant -/

/-- What is reported, the age of the confirmations apart. -/
structure Sound (h : Health) (incomplete : List ResourceKind) (published : Bool) : Prop where
  listed : ∀ kind ∈ h.kinds, ∃ moment, h.freshAt kind = some moment
  complete : ∀ kind ∈ h.kinds, kind ∉ incomplete
  published : published = true
  activated : h.activationFailed = false

structure Inv (s : Controller) : Prop where
  sink : s.sink = some true → s.health.reported = true
  latest : s.health.activationFailed = decide (s.latest = some .rejected)
  cached : s.phase.inner = true → s.current.isSome = true
  marked : ∀ kind ∈ s.rejected, kind ∈ s.incomplete ∨ kind ∈ s.lost
  sound : s.phase.assessed = true → s.health.reported = true →
    Sound s.health s.incomplete s.lastGood
  armed : ∀ staleAt, s.phase.timer = some staleAt → s.health.reported = true →
    ∀ kind ∈ s.health.kinds, ∀ moment, s.health.freshAt kind = some moment →
      ∃ t, staleAt = some t ∧ t ≤ moment + s.health.staleAfter

theorem inv_initial (staleAfter : Nat) (secrets : Bool) (now : Nat) :
    Inv (initial staleAfter secrets now) where
  sink := by simp [initial]
  latest := rfl
  cached := by simp [initial, Phase.inner]
  marked := by simp [initial]
  sound := by simp [initial, Health.new]
  armed := by simp [initial, Phase.timer]

section preserved

variable {s s' : Controller}

/-- The loop goes on elsewhere. -/
theorem Inv.goto (hinv : Inv s) {phase : Phase} (hinner : phase.inner = true → s.current.isSome = true)
    (hassessed : s.phase.assessed = true ∨ phase.assessed = false) (htimer : phase.timer = none) :
    Inv { s with phase := phase } where
  sink := hinv.sink
  latest := hinv.latest
  cached := hinner
  marked := hinv.marked
  sound h hreported := by
    rcases hassessed with hassessed | hassessed
    · exact hinv.sound hassessed hreported
    · exact absurd h (by simp [hassessed])
  armed staleAt h := by simp [htimer] at h

/-- A kind is confirmed. -/
theorem Inv.touch (hinv : Inv s) (hassessed : s.phase.assessed = true) (kind : ResourceKind)
    {phase : Phase} (hinner : s.current.isSome = true) (htimer : phase.timer = none) :
    Inv { s.touch kind with phase := phase } where
  sink := hinv.sink
  latest := hinv.latest
  cached _ := hinner
  marked := hinv.marked
  sound _ hreported := by
    obtain ⟨hlisted, hcomplete, hpublished, hactivated⟩ := hinv.sound hassessed hreported
    refine ⟨fun other hother => ?_, hcomplete, hpublished, hactivated⟩
    by_cases heq : other = kind
    · exact ⟨s.now, heq ▸ Function.update_self ..⟩
    · obtain ⟨moment, hmoment⟩ := hlisted other hother
      exact ⟨moment, (Function.update_of_ne heq ..).trans hmoment⟩
  armed staleAt h := by simp [htimer] at h

theorem inv_elapse (hinv : Inv s) (nanos : Nat) : Inv { s with now := s.now + nanos } where
  sink := hinv.sink
  latest := hinv.latest
  cached := hinv.cached
  marked := hinv.marked
  sound := hinv.sound
  armed := hinv.armed

/-- The phases that wait are entered by arming, when it is timely. -/
theorem inv_arm (hinv : Inv s) {loop : Loop} (hphase : s.phase = .arming loop)
    (htimely : s.health.reported = true → ∀ kind ∈ s.health.kinds, ∀ moment,
      s.health.freshAt kind = some moment → s.now < moment + s.health.staleAfter)
    (h : s.arm loop = some s') : Inv s' := by
  have hassessed : s.phase.assessed = true := by rw [hphase]; rfl
  have hinner : loop.inner = true → s.current.isSome = true := fun h =>
    hinv.cached (by rw [hphase]; exact h)
  have hdeadline : s.health.reported = true → ∀ kind ∈ s.health.kinds, ∀ moment,
      s.health.freshAt kind = some moment →
      ∃ t, s.health.deadline s.now = some t ∧ t ≤ moment + s.health.staleAfter :=
    fun hreported kind hkind moment hmoment =>
      Health.deadline_le hkind hmoment (htimely hreported kind hkind moment hmoment)
  -- only the phase changes, and its timer is given by the deadline
  have hwait : ∀ phase : Phase, (phase.inner = true → s.current.isSome = true) →
      (∀ staleAt, phase.timer = some staleAt → s.health.reported = true →
        ∀ kind ∈ s.health.kinds, ∀ moment, s.health.freshAt kind = some moment →
          ∃ t, staleAt = some t ∧ t ≤ moment + s.health.staleAfter) →
      Inv { s with phase := phase } := by
    intro phase hcached harmed
    exact ⟨hinv.sink, hinv.latest, hcached, hinv.marked, fun _ => hinv.sound hassessed, harmed⟩
  cases loop with
  | pause limit retry =>
    obtain rfl := Option.some.inj h
    refine hwait _ (by simp [Phase.inner]) ?_
    intro staleAt hstaleAt hreported kind hkind moment hmoment
    obtain ⟨t, ht, hle⟩ := hdeadline hreported kind hkind moment hmoment
    obtain rfl := Option.some.inj hstaleAt
    exact ⟨_, rfl, by rw [ht]; exact (Nat.min_le_left t limit).trans hle⟩
  | list =>
    obtain rfl := Option.some.inj h
    refine hwait _ (by simp [Phase.inner]) ?_
    intro staleAt hstaleAt
    obtain rfl := Option.some.inj hstaleAt
    exact hdeadline
  | reconcile watching =>
    obtain rfl := Option.some.inj h
    refine hwait _ (fun _ => hinner rfl) ?_
    intro staleAt hstaleAt
    obtain rfl := Option.some.inj hstaleAt
    exact hdeadline
  | enter => cases h
  | watch relistAt =>
    obtain rfl := Option.some.inj h
    refine hwait _ (fun _ => hinner rfl) ?_
    intro staleAt hstaleAt
    obtain rfl := Option.some.inj hstaleAt
    exact hdeadline

theorem inner_resume (loop : Loop) : (resume loop).inner = loop.inner := by cases loop <;> rfl

theorem timer_resume (loop : Loop) : (resume loop).timer = none := by cases loop <;> rfl

/-- After an assessment, what is reported holds. -/
theorem inv_assess (hinv : Inv s) {applied : Bool} {loop : Loop}
    (hphase : s.phase = .assessing applied loop) : Inv (s.assess applied loop) := by
  have hinner : loop.inner = true → s.current.isSome = true := fun h =>
    hinv.cached (by rw [hphase]; exact h)
  have hsound : (s.health.defect s.now s.incomplete s.lastGood).isNone = true →
      Sound s.health s.incomplete s.lastGood := by
    intro hnone
    obtain ⟨hactivated, hpublished, hkinds⟩ :=
      Health.defect_eq_none.mp (Option.isNone_iff_eq_none.mp hnone)
    refine ⟨fun kind hkind => ?_, fun kind hkind => (hkinds kind hkind).2, hpublished, hactivated⟩
    obtain ⟨⟨moment, hmoment, -⟩, -⟩ := hkinds kind hkind
    exact ⟨moment, hmoment⟩
  unfold assess
  simp only
  split
  · next hquiet =>
    -- nothing is reported: the result is the one that was reported before
    refine ⟨hinv.sink, hinv.latest, ?_, hinv.marked, ?_, ?_⟩
    · rw [inner_resume]
      exact hinner
    · intro _ hreported
      have hsame : (s.health.defect s.now s.incomplete s.lastGood).isNone = s.health.reported := by
        simpa using (Bool.and_eq_true_iff.mp hquiet).1
      exact hsound (hsame.trans hreported)
    · intro staleAt h
      simp [timer_resume] at h
  · refine ⟨fun h => Option.some.inj h, hinv.latest, hinner, hinv.marked, ?_, ?_⟩
    · intro _ hreported
      obtain ⟨h₁, h₂, h₃, h₄⟩ := hsound hreported
      exact ⟨h₁, h₂, h₃, h₄⟩
    · intro staleAt h
      simp [Phase.timer] at h

theorem inv_check (hinv : Inv s) {limit : Nat} {retry : Bool}
    (hphase : s.phase = .checking limit retry) : Inv (s.check limit retry) := by
  have hassessed : s.phase.assessed = true := by rw [hphase]; rfl
  unfold check
  split
  · split
    · have h : Inv { s with phase := .top } :=
        hinv.goto (by simp [Phase.inner]) (.inl hassessed) rfl
      exact ⟨h.sink, h.latest, h.cached, h.marked, h.sound, h.armed⟩
    · exact hinv.goto (by simp [Phase.inner]) (.inl hassessed) rfl
  · exact hinv.goto (by simp [Phase.inner, Loop.inner]) (.inl hassessed) rfl

theorem inv_close (hinv : Inv s) {discard : Bool} (hphase : s.phase = .closing discard) :
    Inv (s.close discard) := by
  have hassessed : s.phase.assessed = true := by rw [hphase]; rfl
  unfold close
  split
  · refine ⟨hinv.sink, hinv.latest, by simp [Phase.inner], ?_, ?_, by simp [Phase.timer]⟩
    · intro kind hkind
      refine .inr (List.mem_append.mpr ?_)
      exact (hinv.marked kind hkind).symm
    · intro _ hreported
      obtain ⟨hlisted, -, hpublished, hactivated⟩ := hinv.sound hassessed hreported
      exact ⟨hlisted, fun _ _ => List.not_mem_nil, hpublished, hactivated⟩
  · exact hinv.goto (by simp [Phase.inner]) (.inl hassessed) rfl

theorem inv_proceed (hinv : Inv s) {jittered : Nat} (htimely : Timely s (.proceed jittered) = true)
    (h : s.proceed jittered = some s') : Inv s' := by
  unfold proceed at h
  split at h
  case h_1 hphase =>
    have hassessed : s.phase.assessed = true := by rw [hphase]; rfl
    split at h
    · obtain rfl := Option.some.inj h
      exact hinv.goto (by simp [Phase.inner]) (.inl hassessed) rfl
    · split at h
      · obtain rfl := Option.some.inj h
        exact hinv.goto (by simp [Phase.inner, Loop.inner]) (.inl hassessed) rfl
      · cases h
  case h_2 hphase =>
    have hassessed : s.phase.assessed = true := by rw [hphase]; rfl
    obtain rfl := Option.some.inj h
    have h : Inv { s with phase := .arming .list } :=
      hinv.goto (by simp [Phase.inner, Loop.inner]) (.inl hassessed) rfl
    exact ⟨h.sink, h.latest, h.cached, h.marked, h.sound, h.armed⟩
  -- the phases that touch the timer or the sink have lemmas of their own
  case h_3 loop hphase => exact inv_arm hinv hphase (lt_of_timely htimely hphase) h
  case h_4 applied loop hphase => exact Option.some.inj h ▸ inv_assess hinv hphase
  case h_5 loop hphase =>
    obtain rfl := Option.some.inj h
    refine hinv.goto ?_ (.inl (by rw [hphase]; rfl)) (timer_resume loop)
    rw [inner_resume]
    intro h
    exact hinv.cached (by rw [hphase]; exact h)
  case h_6 limit retry hphase => exact Option.some.inj h ▸ inv_check hinv hphase
  -- inside the watch the cache is filled
  case h_7 hphase =>
    have hassessed : s.phase.assessed = true := by rw [hphase]; rfl
    have hcached : s.current.isSome = true := hinv.cached (by rw [hphase]; rfl)
    split at h
    · obtain rfl := Option.some.inj h
      exact hinv.goto (fun _ => hcached) (.inl hassessed) rfl
    · split at h
      · obtain rfl := Option.some.inj h
        exact hinv.goto (fun _ => hcached) (.inl hassessed) rfl
      · cases h
  case h_8 discard hphase => exact Option.some.inj h ▸ inv_close hinv hphase
  case h_9 => cases h

theorem inv_wake (hinv : Inv s) (h : s.wake = some s') : Inv s' := by
  -- every branch goes on with an assessment in the same loop
  have hgo : ∀ {loop : Loop}, (loop.inner = true → s.current.isSome = true) →
      Inv { s with phase := .assessing false loop } := fun hinner =>
    hinv.goto hinner (.inr rfl) rfl
  unfold wake at h
  split at h
  case h_5 => cases h
  all_goals
    next hphase =>
    split at h
    · obtain rfl := Option.some.inj h
      refine hgo fun hinner => ?_
      first
        | exact hinv.cached (by rw [hphase]; rfl)
        | cases hinner
    · cases h

theorem freshAt_foldl_touchAt (confirmed : ResourceKind → Nat) (kinds : List ResourceKind)
    (h : Health) (kind : ResourceKind) :
    (kinds.foldl (fun h kind => h.touchAt kind (confirmed kind)) h).freshAt kind =
      if kind ∈ kinds then some (confirmed kind) else h.freshAt kind := by
  induction kinds generalizing h with
  | nil => simp
  | cons first rest ih =>
    rw [List.foldl_cons, ih]
    by_cases hrest : kind ∈ rest
    · simp [hrest]
    · by_cases hfirst : kind = first
      · simp [hfirst, Health.touchAt]
      · simp [hrest, hfirst, Health.touchAt]

/-- Confirmations change nothing else. -/
theorem foldl_touchAt (confirmed : ResourceKind → Nat) (kinds : List ResourceKind) (h : Health) :
    ∃ freshAt, kinds.foldl (fun h kind => h.touchAt kind (confirmed kind)) h =
      { h with freshAt := freshAt } := by
  induction kinds generalizing h with
  | nil => exact ⟨h.freshAt, rfl⟩
  | cons first rest ih =>
    obtain ⟨freshAt, hrest⟩ := ih (h.touchAt first (confirmed first))
    exact ⟨freshAt, hrest⟩

theorem inv_listed (hinv : Inv s) {confirmed : Option (ResourceKind → Nat)} {jittered : Nat}
    (h : s.listed confirmed jittered = some s') : Inv s' := by
  unfold listed at h
  split at h
  case h_1 staleAt confirmed hphase =>
    split at h
    · have hassessed : s.phase.assessed = true := by rw [hphase]; rfl
      obtain rfl := Option.some.inj h
      obtain ⟨freshAt, htouched⟩ := foldl_touchAt confirmed s.health.kinds s.health
      have hfresh := freshAt_foldl_touchAt confirmed s.health.kinds s.health
      rw [htouched] at hfresh ⊢
      refine ⟨hinv.sink, hinv.latest, fun _ => rfl, fun _ h => absurd h List.not_mem_nil, ?_,
        fun _ h => by cases h⟩
      intro _ hreported
      obtain ⟨-, -, hpublished, hactivated⟩ := hinv.sound hassessed hreported
      refine ⟨fun kind hkind => ⟨confirmed kind, ?_⟩, fun _ _ => List.not_mem_nil, hpublished,
        hactivated⟩
      exact (hfresh kind).trans (if_pos hkind)
    · cases h
  case h_2 staleAt hphase =>
    have hassessed : s.phase.assessed = true := by rw [hphase]; rfl
    split at h
    · next hcached =>
      obtain rfl := Option.some.inj h
      exact hinv.goto (fun _ => hcached) (.inl hassessed) rfl
    · split at h
      · obtain rfl := Option.some.inj h
        exact hinv.goto (by simp [Phase.inner, Loop.inner]) (.inl hassessed) rfl
      · cases h
  case h_3 => cases h

theorem inv_reconciled (hinv : Inv s) {outcome : Outcome} (h : s.reconciled outcome = some s') :
    Inv s' := by
  unfold reconciled at h
  split at h
  · next staleAt watching hphase =>
    split at h
    · cases h
    · obtain rfl := Option.some.inj h
      have hcached : s.current.isSome = true := hinv.cached (by rw [hphase]; rfl)
      refine ⟨hinv.sink, ?_, fun _ => hcached, hinv.marked, fun h => ?_, fun _ h => ?_⟩
      · simp
      · cases h
      · cases h
  · cases h

theorem inv_event (hinv : Inv s) {relistAt staleAt : Option Nat} {kind : ResourceKind}
    {action : WatchAction} {applied : Applied} (hphase : s.phase = .watching relistAt staleAt)
    (h : s.event relistAt kind action applied = some s') : Inv s' := by
  have hassessed : s.phase.assessed = true := by rw [hphase]; rfl
  have hcached : s.current.isSome = true := hinv.cached (by rw [hphase]; rfl)
  cases applied with
  | ok recoverable =>
    simp only [event] at h
    split at h
    · cases h
    · obtain rfl := Option.some.inj h
      exact hinv.touch hassessed kind hcached rfl
  | capacity jittered =>
    simp only [event] at h
    split at h
    · obtain rfl := Option.some.inj h
      obtain ⟨incomplete, hincomplete⟩ := Option.isSome_iff_exists.mp hcached
      refine ⟨hinv.sink, hinv.latest, fun _ => ?_, fun other hother => ?_, fun h => ?_,
        fun _ h => ?_⟩
      · simpa using hcached
      · -- the mark of the kind is in the cache, which exists
        have hmarked := hinv.marked other
        simp only [Controller.incomplete, touch, hincomplete, Option.map_some, Option.getD_some]
          at hmarked ⊢
        rcases List.mem_insert_iff.mp hother with rfl | hother
        · exact .inl List.mem_insert_self
        · exact (hmarked hother).imp_left (List.mem_insert_of_mem)
      · cases h
      · cases h
    · cases h
  | invalid =>
    obtain rfl := Option.some.inj h
    exact hinv.touch hassessed kind hcached rfl

theorem inv_message (hinv : Inv s) {m : WatchMessage} (h : s.message m = some s') : Inv s' := by
  unfold message at h
  split at h
  · next relistAt staleAt hphase =>
    have hassessed : s.phase.assessed = true := by rw [hphase]; rfl
    have hcached : s.current.isSome = true := hinv.cached (by rw [hphase]; rfl)
    split at h
    · split at h
      · exact inv_event hinv hphase h
      · cases h
    · split at h
      · obtain rfl := Option.some.inj h
        exact hinv.touch hassessed _ hcached rfl
      · cases h
    · split at h
      · obtain rfl := Option.some.inj h
        exact hinv.touch hassessed _ hcached rfl
      · cases h
    · obtain rfl := Option.some.inj h
      exact hinv.goto (fun _ => hcached) (.inl hassessed) rfl
  · cases h

theorem inv_relist (hinv : Inv s) {recoverable : Bool} {jittered : Nat}
    (h : s.relist recoverable jittered = some s') : Inv s' := by
  unfold relist at h
  split at h
  · next relistAt staleAt hphase =>
    have hassessed : s.phase.assessed = true := by rw [hphase]; rfl
    have hcached : s.current.isSome = true := hinv.cached (by rw [hphase]; rfl)
    -- the branches that go on do so with the cache
    repeat' split at h
    all_goals cases h
    all_goals exact hinv.goto (fun _ => hcached) (.inl hassessed) rfl
  · cases h

theorem inv_step {l : Label} (hinv : Inv s) (htimely : Timely s l = true) (h : s.step l = some s') :
    Inv s' := by
  cases l with
  | elapse nanos => exact Option.some.inj h ▸ inv_elapse hinv nanos
  | proceed jittered => exact inv_proceed hinv htimely h
  | wake => exact inv_wake hinv h
  | listed confirmed jittered => exact inv_listed hinv h
  | reconciled outcome => exact inv_reconciled hinv h
  | message m => exact inv_message hinv h
  | relist recoverable jittered => exact inv_relist hinv h
  | closed =>
    replace h : s.closed = some s' := h
    unfold closed at h
    split at h
    · next hphase =>
      obtain rfl := Option.some.inj h
      exact hinv.goto (fun _ => hinv.cached (by rw [hphase]; rfl)) (.inl (by rw [hphase]; rfl)) rfl
    · cases h
  | cancel =>
    replace h : s.cancel = some s' := h
    unfold cancel at h
    split at h
    case h_5 => cases h
    all_goals
      next hphase =>
      obtain rfl := Option.some.inj h
      exact hinv.goto (by simp [Phase.inner]) (.inl (by rw [hphase]; rfl)) rfl

end preserved

/-! ## The theorem -/

theorem inv_run {s s' : Controller} {labels : List Label} (hinv : Inv s)
    (hrun : timely.run s labels = some s') : Inv s' := by
  refine Machine.run_invariant (fun s l s' hinv hstep => ?_) hinv hrun
  obtain ⟨htimely, hstep⟩ := Machine.restrict_step_eq_some.mp hstep
  exact inv_step hinv htimely hstep

/-- **Freshness of the reported authority.** In every run that arms its timers in
    time, a controller that waits with no due timer and has last reported authority is
    authoritative: every kind was confirmed at most `stale_after` ago and none is
    incomplete, a snapshot is published and the latest reconciliation was not rejected.
    A kind that rejected an object since its last list is not hidden either, unless the
    cache with its mark was discarded after an expired watch. -/
theorem authority_fresh (staleAfter : Nat) (secrets : Bool) (now : Nat) (labels : List Label)
    (s : Controller) (hrun : timely.run (initial staleAfter secrets now) labels = some s)
    (hidle : Idle s) (htrue : s.sink = some true) :
    Authoritative s ∧ ∀ kind ∈ s.health.kinds, kind ∈ s.rejected → kind ∈ s.lost := by
  have hinv := inv_run (inv_initial staleAfter secrets now) hrun
  obtain ⟨staleAt, htimer, hdue⟩ := hidle
  have hreported := hinv.sink htrue
  have hassessed : s.phase.assessed = true := by
    cases hphase : s.phase with
    | assessing applied loop =>
      rw [hphase] at htimer
      cases htimer
    | _ => rfl
  obtain ⟨hlisted, hcomplete, hpublished, hactivated⟩ := hinv.sound hassessed hreported
  refine ⟨⟨fun kind hkind => ?_, hcomplete, hpublished, ?_⟩, fun kind hkind hrejected => ?_⟩
  · obtain ⟨moment, hmoment⟩ := hlisted kind hkind
    obtain ⟨t, rfl, hle⟩ := hinv.armed staleAt htimer hreported kind hkind moment hmoment
    exact ⟨moment, hmoment, (hdue t rfl).le.trans hle⟩
  · rw [hinv.latest] at hactivated
    exact of_decide_eq_false hactivated
  · exact (hinv.marked kind hrejected).resolve_left (hcomplete kind hkind)

/-- The first list and its publication: every kind is confirmed at once and the
    snapshot is accepted. -/
def firstPublication : List Label :=
  [.proceed 0, .proceed 0, .proceed 0, .listed (some fun _ => 0) 0, .proceed 0,
    .reconciled .applied, .proceed 0, .proceed 0, .proceed 0, .proceed 0]

theorem authority_fresh_first_publication :
    ∃ s, timely.run (initial (60 * second) false 0) firstPublication = some s ∧
      s.sink = some true ∧ Authoritative s := by
  obtain ⟨s, hrun, htimer, htrue⟩ : ∃ s,
      timely.run (initial (60 * second) false 0) firstPublication = some s ∧
      (s.phase.timer = some (some (60 * second)) ∧ s.now = 0) ∧ s.sink = some true :=
    ⟨_, rfl, by decide +kernel, by decide +kernel⟩
  have hidle : Idle s := by
    refine ⟨_, htimer.1, fun t ht => ?_⟩
    rw [htimer.2, ← Option.some.inj ht]
    decide
  exact ⟨s, hrun, htrue, (authority_fresh _ _ _ _ s hrun hidle htrue).1⟩

/-! ## Late arming and a lost mark -/

/-- The timer fires at the very moment for which it was armed; then a second goes by. -/
def lateArming : List Label :=
  firstPublication ++ [.elapse (60 * second), .wake, .proceed 0, .proceed 0, .elapse second]

/-- An object is rejected at capacity, then the watch expires. -/
def lostMark : List Label :=
  firstPublication ++ [.message (.event .ingress .upsert (.capacity (60 * second))), .proceed 0,
    .proceed 0, .proceed 0, .message .expired, .proceed 0, .elapse (5 * second),
    .proceed (5 * second), .proceed 0, .wake, .proceed 0, .proceed 0, .proceed 0, .proceed 0,
    .proceed 0]

/-- A timer that fires at its very moment finds no kind stale, and none is armed again:
    authority stays reported. After an expired watch the mark of an incomplete kind is
    gone, and authority is reported before the next list. -/
theorem authority_not_fresh :
    (∃ s, machine.run (initial (60 * second) false 0) lateArming = some s ∧ Idle s ∧
      s.sink = some true ∧ ¬ Authoritative s) ∧
    (∃ s, machine.run (initial (60 * second) false 0) lostMark = some s ∧ Idle s ∧
      s.sink = some true ∧ ResourceKind.ingress ∈ s.health.kinds ∧
      ResourceKind.ingress ∈ s.rejected) := by
  constructor
  · obtain ⟨s, hrun, htimer, htrue, hkinds, hfresh, hlate⟩ : ∃ s,
        machine.run (initial (60 * second) false 0) lateArming = some s ∧
        s.phase.timer = some none ∧ s.sink = some true ∧
        ResourceKind.service ∈ s.health.kinds ∧ s.health.freshAt .service = some 0 ∧
        0 + s.health.staleAfter < s.now :=
      ⟨_, rfl, by decide +kernel, by decide +kernel, by decide +kernel, by decide +kernel,
        by decide +kernel⟩
    refine ⟨s, hrun, ⟨none, htimer, fun t h => by cases h⟩, htrue, fun hauthoritative => ?_⟩
    obtain ⟨moment, hmoment, hle⟩ := hauthoritative.fresh .service hkinds
    rw [hfresh, Option.some.injEq] at hmoment
    exact absurd hle (Nat.not_le.mpr (hmoment ▸ hlate))
  · obtain ⟨s, hrun, htimer, hnow, htrue, hkinds, hrejected⟩ : ∃ s,
        machine.run (initial (60 * second) false 0) lostMark = some s ∧
        s.phase.timer = some (some (60 * second)) ∧ s.now = 5 * second ∧ s.sink = some true ∧
        ResourceKind.ingress ∈ s.health.kinds ∧ ResourceKind.ingress ∈ s.rejected :=
      ⟨_, rfl, by decide +kernel, by decide +kernel, by decide +kernel, by decide +kernel,
        by decide +kernel⟩
    refine ⟨s, hrun, ⟨_, htimer, fun t h => ?_⟩, htrue, hkinds, hrejected⟩
    rw [hnow, ← Option.some.inj h]
    decide

end Controller

end Kubernetes
