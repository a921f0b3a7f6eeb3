import Hangang.NativeRouteOwner.Registry

/-! # Captures Only Expire

    Over any run, an entry that is still there has only aged: its last clock reading has
    grown, a failure has stayed, and the published snapshot has moved on. A capture that
    was found not current therefore stays so, and the time reported for it never
    grows. -/

namespace NativeRouteOwner

/-! ## What steps keep -/

/-- What holds of every reachable state. -/
structure Inv (capacity : Nat) (s : State) : Prop where
  permits : Table.size s.entries + s.pending.length + s.available = capacity
  enabled : ∀ reference e, s.entries.lookup reference = some e → e.request.enabled = true
  pending : ∀ p ∈ s.pending, p.1.enabled = true
  ids : ∀ reference e, s.entries.lookup reference = some e → e.id < s.nextId
  snapshots : ∀ reference e, s.entries.lookup reference = some e → e.snapshot ≤ s.active
  unique : ∀ reference reference' e e', s.entries.lookup reference = some e →
    s.entries.lookup reference' = some e' → e.id = e'.id → reference = reference'

/-- The entries that are still there have aged. -/
structure Later (s s' : State) : Prop where
  active : s.active ≤ s'.active
  nextId : s.nextId ≤ s'.nextId
  entries : ∀ reference e', s'.entries.lookup reference = some e' → e'.id < s.nextId →
    ∃ e, s.entries.lookup reference = some e ∧ e.id = e'.id ∧ e.snapshot = e'.snapshot ∧
      e.lifetime.Older e'.lifetime

theorem Later.refl (s : State) : Later s s :=
  ⟨le_rfl, le_rfl, fun _ e h _ => ⟨e, h, rfl, rfl, .refl _⟩⟩

variable {s s' : State} {reference : Bytes} {e : Entry} {lifetime : Lifetime} {capacity : Nat}
  {o : Observation}

theorem Later.trans {t u : State} (h : Later s t) (h' : Later t u) : Later s u := by
  refine ⟨h.active.trans h'.active, h.nextId.trans h'.nextId, fun reference e'' hlookup hid => ?_⟩
  obtain ⟨e', hlookup', hid', hsnapshot', holder'⟩ :=
    h'.entries reference e'' hlookup (lt_of_lt_of_le hid h.nextId)
  obtain ⟨e, hlookup'', hid'', hsnapshot'', holder''⟩ :=
    h.entries reference e' hlookup' (hid' ▸ hid)
  exact ⟨e, hlookup'', hid''.trans hid', hsnapshot''.trans hsnapshot', holder''.trans holder'⟩

/-! ## Touching an entry -/

theorem lookup_touch {reference' : Bytes} {e' : Entry}
    (h : (s.touch reference e lifetime).entries.lookup reference' = some e') :
    reference' = reference ∧ e' = { e with lifetime } ∨ s.entries.lookup reference' = some e' :=
  Table.lookup_of_insert h

/-- A touched entry stands for the same capture. -/
theorem lookup_touch_of (hlookup : s.entries.lookup reference = some e) {reference' : Bytes}
    {e' : Entry} (h : (s.touch reference e lifetime).entries.lookup reference' = some e') :
    ∃ old, s.entries.lookup reference' = some old ∧ old.id = e'.id ∧
      old.snapshot = e'.snapshot ∧ old.request = e'.request ∧
      (old.lifetime = e'.lifetime ∨ old.lifetime = e.lifetime ∧ e'.lifetime = lifetime) := by
  rcases lookup_touch h with ⟨rfl, rfl⟩ | h
  · exact ⟨e, hlookup, rfl, rfl, rfl, .inr ⟨rfl, rfl⟩⟩
  · exact ⟨e', h, rfl, rfl, rfl, .inl rfl⟩

theorem Later.touch (hlookup : s.entries.lookup reference = some e)
    (holder : e.lifetime.Older lifetime) :
    Later s (s.touch reference e lifetime) := by
  refine ⟨le_rfl, le_rfl, fun reference' e' h _ => ?_⟩
  obtain ⟨old, hold, hid, hsnapshot, -, heq | ⟨heq, heq'⟩⟩ := lookup_touch_of hlookup h
  · exact ⟨old, hold, hid, hsnapshot, heq ▸ .refl _⟩
  · exact ⟨old, hold, hid, hsnapshot, by rw [heq, heq']; exact holder⟩

theorem Inv.touch (h : Inv capacity s) (lifetime : Lifetime)
    (hlookup : s.entries.lookup reference = some e) :
    Inv capacity (s.touch reference e lifetime) := by
  constructor
  · have hsize : Table.size (s.touch reference e lifetime).entries = Table.size s.entries :=
      Table.size_insert_known hlookup
    rw [hsize]
    exact h.permits
  · intro reference' e' hlookup'
    obtain ⟨old, hold, -, -, hrequest, -⟩ := lookup_touch_of hlookup hlookup'
    exact hrequest ▸ h.enabled reference' old hold
  · exact h.pending
  · intro reference' e' hlookup'
    obtain ⟨old, hold, hid, -⟩ := lookup_touch_of hlookup hlookup'
    exact hid ▸ h.ids reference' old hold
  · intro reference' e' hlookup'
    obtain ⟨old, hold, -, hsnapshot, -⟩ := lookup_touch_of hlookup hlookup'
    exact hsnapshot ▸ h.snapshots reference' old hold
  · intro reference₁ reference₂ e₁ e₂ h₁ h₂ heq
    obtain ⟨old₁, hold₁, hid₁, -⟩ := lookup_touch_of hlookup h₁
    obtain ⟨old₂, hold₂, hid₂, -⟩ := lookup_touch_of hlookup h₂
    exact h.unique _ _ old₁ old₂ hold₁ hold₂ (hid₁.trans (heq.trans hid₂.symm))

/-- Publications only move the snapshot on. -/
theorem Inv.publish (h : Inv capacity s) (n : Nat) :
    Inv capacity { s with active := s.active + n } :=
  { h with snapshots := fun reference e hlookup =>
      (h.snapshots reference e hlookup).trans (Nat.le_add_right _ _) }

theorem Later.publish (s : State) (n : Nat) : Later s { s with active := s.active + n } :=
  ⟨Nat.le_add_right _ _, le_rfl, fun _ e h _ => ⟨e, h, rfl, rfl, .refl _⟩⟩

/-! ## Steps -/

/-- An observation publishes, and may touch the entry it is about. -/
theorem observe_snd (s : State) (o : Observation) :
    (s.observe o).2 = { s with active := s.active + o.published } ∨
      ∃ e, s.entries.lookup o.reference = some e ∧ (s.observe o).2 =
        State.touch { s with active := s.active + o.published } o.reference e
          (e.lifetime.observe o.first o.next).2 := by
  unfold State.observe
  dsimp only
  split
  · exact .inl rfl
  · next e hlookup =>
    split
    · exact .inl rfl
    · exact .inr ⟨e, hlookup, rfl⟩

theorem check_snd (s : State) (reference digest uri method : Bytes) (reading : Option Nat) :
    (s.check reference digest uri method reading).2 = s ∨
      ∃ e, s.entries.lookup reference = some e ∧
        (s.check reference digest uri method reading).2 =
          s.touch reference e (e.lifetime.remaining reading).2 := by
  unfold State.check
  split
  · exact .inl rfl
  · next e hlookup =>
    split
    · exact .inr ⟨e, hlookup, rfl⟩
    · exact .inl rfl

theorem step_observe_spec (h : Inv capacity s) (o : Observation) :
    Inv capacity (s.observe o).2 ∧ Later s (s.observe o).2 := by
  rcases observe_snd s o with heq | ⟨e, hlookup, heq⟩
  · rw [heq]
    exact ⟨h.publish _, .publish s _⟩
  · rw [heq]
    exact ⟨(h.publish _).touch _ hlookup,
      (Later.publish s _).trans (.touch hlookup (e.lifetime.observe_older _ _))⟩

theorem step_check_spec (h : Inv capacity s) (reference digest uri method : Bytes)
    (reading : Option Nat) :
    Inv capacity (s.check reference digest uri method reading).2 ∧
      Later s (s.check reference digest uri method reading).2 := by
  rcases check_snd s reference digest uri method reading with heq | ⟨e, hlookup, heq⟩
  · rw [heq]
    exact ⟨h, .refl s⟩
  · rw [heq]
    exact ⟨h.touch _ hlookup, .touch hlookup (e.lifetime.remaining_older _)⟩

/-- A capture leaves `pending`, and has an entry or gives its permit back. -/
theorem step_insert_spec (h : Inv capacity s) {index : Nat} {p : Request × Nat}
    (hp : s.pending[index]? = some p) (reference : Option Bytes) (stamped reserved : Bool) :
    let s' := State.insert { s with pending := s.pending.eraseIdx index } p.1 p.2 reference stamped
      reserved
    Inv capacity s' ∧ Later s s' := by
  have hlt : index < s.pending.length := (List.getElem?_eq_some_iff.mp hp).1
  have hlength : (s.pending.eraseIdx index).length + 1 = s.pending.length := by
    rw [List.length_eraseIdx, if_pos hlt]
    omega
  have hpending : ∀ q ∈ s.pending.eraseIdx index, q.1.enabled = true :=
    fun q hq => h.pending q (List.mem_of_mem_eraseIdx hq)
  -- both ways to refuse the capture come to this
  have hrelease : Inv capacity (State.release { s with pending := s.pending.eraseIdx index }) ∧
      Later s (State.release { s with pending := s.pending.eraseIdx index }) := by
    refine ⟨⟨?_, h.enabled, hpending, h.ids, h.snapshots, h.unique⟩, le_rfl, le_rfl,
      fun _ e he _ => ⟨e, he, rfl, rfl, .refl _⟩⟩
    have := h.permits
    simp only [State.release]
    omega
  intro s'
  cases reference with
  | none => exact hrelease
  | some reference =>
    show Inv capacity (State.insert _ _ _ _ _ _) ∧ Later s (State.insert _ _ _ _ _ _)
    unfold State.insert
    dsimp only
    split
    · next hnew =>
      obtain ⟨-, hfresh, hactive, -⟩ := hnew
      -- an entry of the new table is the new one or an old one
      have hcases : ∀ reference' e', (s.entries.insert reference
          ⟨s.nextId, p.1, p.2, ⟨0, false⟩⟩).lookup reference' = some e' →
          reference' = reference ∧ e' = ⟨s.nextId, p.1, p.2, ⟨0, false⟩⟩ ∨
            s.entries.lookup reference' = some e' := fun _ _ hl => Table.lookup_of_insert hl
      refine ⟨⟨?_, ?_, hpending, ?_, ?_, ?_⟩, le_rfl, Nat.le_succ _, ?_⟩
      · have hsize : Table.size (s.entries.insert reference
            ⟨s.nextId, p.1, p.2, ⟨0, false⟩⟩) = Table.size s.entries + 1 :=
          Table.size_insert_new hfresh
        have := h.permits
        dsimp only
        rw [hsize]
        omega
      · intro reference' e' hl
        rcases hcases reference' e' hl with ⟨-, rfl⟩ | hl
        · exact h.pending p (List.mem_of_getElem? hp)
        · exact h.enabled reference' e' hl
      · intro reference' e' hl
        rcases hcases reference' e' hl with ⟨-, rfl⟩ | hl
        · exact Nat.lt_succ_self _
        · exact (h.ids reference' e' hl).trans (Nat.lt_succ_self _)
      · intro reference' e' hl
        rcases hcases reference' e' hl with ⟨-, rfl⟩ | hl
        · exact hactive.ge
        · exact h.snapshots reference' e' hl
      · intro reference₁ reference₂ e₁ e₂ h₁ h₂ heq
        rcases hcases _ _ h₁ with ⟨hr₁, rfl⟩ | hold₁
        · rcases hcases _ _ h₂ with ⟨hr₂, -⟩ | hold₂
          · rw [hr₁, hr₂]
          · exact absurd heq (h.ids _ _ hold₂).ne'
        · rcases hcases _ _ h₂ with ⟨-, rfl⟩ | hold₂
          · exact absurd heq (h.ids _ _ hold₁).ne
          · exact h.unique _ _ e₁ e₂ hold₁ hold₂ heq
      · intro reference' e' hl hid
        rcases hcases reference' e' hl with ⟨-, rfl⟩ | hl
        · exact absurd hid (lt_irrefl _)
        · exact ⟨e', hl, rfl, rfl, .refl _⟩
    · exact hrelease

theorem step_drop_spec (h : Inv capacity s) (hmem : reference ∈ s.entries) :
    Inv capacity { s with
      entries := s.entries.erase reference
      available := s.available + 1 } ∧
    Later s { s with
      entries := s.entries.erase reference
      available := s.available + 1 } := by
  have hkept : ∀ reference' e, (s.entries.erase reference).lookup reference' = some e →
      s.entries.lookup reference' = some e := fun _ _ hl => (Table.lookup_of_erase hl).2
  refine ⟨⟨?_, fun _ _ hl => h.enabled _ _ (hkept _ _ hl), h.pending,
    fun _ _ hl => h.ids _ _ (hkept _ _ hl), fun _ _ hl => h.snapshots _ _ (hkept _ _ hl),
    fun _ _ _ _ h₁ h₂ => h.unique _ _ _ _ (hkept _ _ h₁) (hkept _ _ h₂)⟩, le_rfl, le_rfl,
    fun _ e hl _ => ⟨e, hkept _ _ hl, rfl, rfl, .refl _⟩⟩
  have hsize := Table.size_erase_of_mem hmem
  have := h.permits
  dsimp only
  omega

/-- **Step**: everything a step keeps. -/
theorem step_spec {l : Label} (h : Inv capacity s) (hstep : machine.step s l = some s') :
    Inv capacity s' ∧ Later s s' := by
  cases l with
  | acquire request snapshot =>
    simp only [machine, step] at hstep
    split at hstep
    · next hacquire =>
      cases hstep
      refine ⟨⟨?_, h.enabled, ?_, h.ids, h.snapshots, h.unique⟩, le_rfl, le_rfl,
        fun _ e he _ => ⟨e, he, rfl, rfl, .refl _⟩⟩
      · have := h.permits
        simp only [List.length_append, List.length_singleton]
        omega
      · intro p hp
        rcases List.mem_append.mp hp with hp | hp
        · exact h.pending p hp
        · obtain rfl := List.mem_singleton.mp hp
          exact hacquire.1
    · cases hstep
      exact ⟨h, .refl s⟩
  -- the other steps have lemmas of their own
  | insert index reference stamped reserved =>
    obtain ⟨p, hp, rfl⟩ := Option.map_eq_some_iff.mp hstep
    exact step_insert_spec h hp reference stamped reserved
  | publish =>
    cases hstep
    exact ⟨h.publish 1, .publish s 1⟩
  | observe o =>
    cases hstep
    exact step_observe_spec h o
  | check reference digest uri method reading =>
    cases hstep
    exact step_check_spec h reference digest uri method reading
  | drop reference =>
    simp only [machine, step] at hstep
    split at hstep
    · next hmem =>
      cases hstep
      exact step_drop_spec h hmem
    · cases hstep

/-- **Run**: from any state that satisfies the invariant. -/
theorem run_spec {ls : List Label} (h : Inv capacity s) (hrun : machine.run s ls = some s') :
    Inv capacity s' ∧ Later s s' :=
  ⟨Machine.run_invariant (fun _ _ _ hs hstep => (step_spec hs hstep).1) h hrun,
    Machine.run_relation (Inv capacity) Later Later.refl (fun _ _ _ => Later.trans)
      (fun _ _ _ hs hstep => (step_spec hs hstep).1)
      (fun _ _ _ hs hstep => (step_spec hs hstep).2) h hrun⟩

theorem inv_of_new (h : State.new capacity = some s) :
    Inv capacity s := by
  unfold State.new at h
  split at h
  · cases h
    constructor <;> simp [Table.size]
  · cases h

/-! ## Captures that are not current -/

/-- The clock failed it, or its snapshot was replaced. -/
def Dead (s : State) (e : Entry) : Prop := e.lifetime.failed = true ∨ s.active ≠ e.snapshot

/-- No later lookup of the capture succeeds. -/
def Gone (s : State) (id : Nat) : Prop :=
  ∀ ls s', machine.run s ls = some s' → ∀ o e, s'.entries.lookup o.reference = some e →
    e.id = id → (s'.observe o).1 = none ∧
      ∀ digest uri method reading, (s'.check o.reference digest uri method reading).1 = false

theorem observe_of_dead (hlookup : s.entries.lookup o.reference = some e) (hdead : Dead s e) :
    (s.observe o).1 = none := by
  unfold State.observe
  simp only [hlookup]
  cases hadmits : e.admits s.active o with
  | none => rfl
  | some scope =>
    dsimp only
    cases hms : (e.lifetime.observe o.first o.next).1 with
    | none => rfl
    | some ms =>
      -- the clock was good and the first load was, so neither cause applies
      obtain ⟨_, -, -, -, hgood⟩ := Lifetime.observe_eq_some hms
      have hactive : s.active = e.snapshot := by
        unfold Entry.admits at hadmits
        split at hadmits
        · next h => exact h.2.2.2
        · cases hadmits
      rcases hdead with hfailed | hne
      · rw [hgood] at hfailed
        cases hfailed
      · exact absurd hactive hne

theorem check_of_dead (hlookup : s.entries.lookup reference = some e) (hdead : Dead s e)
    (digest uri method : Bytes) (reading : Option Nat) :
    (s.check reference digest uri method reading).1 = false := by
  unfold State.check
  simp only [hlookup]
  split
  · rcases hdead with hfailed | hne
    · simp [Lifetime.remaining_of_failed hfailed]
    · simp [hne]
  · rfl

/-- A dead capture stays dead. -/
theorem gone_of_dead (h : Inv capacity s) (hlookup : s.entries.lookup reference = some e)
    (hdead : Dead s e) :
    Gone s e.id := by
  intro ls s' hrun o e' hlookup' hid
  obtain ⟨hinv, hlater⟩ := run_spec h hrun
  obtain ⟨old, hold, hid', hsnapshot, holder⟩ :=
    hlater.entries o.reference e' hlookup' (hid ▸ h.ids reference e hlookup)
  obtain rfl := h.unique _ _ old e hold hlookup (hid'.trans hid)
  obtain rfl := Option.some.inj (hold.symm.trans hlookup)
  have hdead' : Dead s' e' := by
    rcases hdead with hfailed | hne
    · exact .inl (holder.failed hfailed)
    · right
      have hle := h.snapshots _ _ hlookup
      have := hlater.active
      omega
  exact ⟨observe_of_dead hlookup' hdead', check_of_dead hlookup' hdead'⟩

theorem lookup_touch_self (s : State) (reference : Bytes) (e : Entry) (lifetime : Lifetime) :
    (s.touch reference e lifetime).entries.lookup reference = some { e with lifetime } :=
  AList.lookup_insert _

/-- A lookup that leaves its entry dead was the last one to succeed, if it did. -/
theorem gone_of_touch (h : Inv capacity (s.touch reference e lifetime))
    (hdead : lifetime.failed = true ∨ s.active ≠ e.snapshot) :
    Gone (s.touch reference e lifetime) e.id :=
  gone_of_dead (e := { e with lifetime }) h (lookup_touch_self s reference e lifetime) hdead

/-- A check that fails with the capture's own data has found it dead. -/
theorem gone_of_current (h : Inv capacity s) (hlookup : s.entries.lookup reference = some e)
    {reading : Option Nat} (hcurrent : s.current reference e reading = (false, s')) :
    Gone s' e.id := by
  have henabled := h.enabled reference e hlookup
  unfold State.current at hcurrent
  obtain ⟨hinv, -⟩ := step_check_spec h reference e.request.digest e.request.uri e.request.method
    reading
  rw [hcurrent] at hinv
  unfold State.check at hcurrent
  simp only [hlookup, henabled, and_self, if_true, Prod.mk.injEq] at hcurrent
  obtain ⟨hfalse, rfl⟩ := hcurrent
  refine gone_of_touch hinv ?_
  rcases e.lifetime.remaining_cases reading with ⟨-, hfailed, -⟩ | ⟨_, -, -, -, -, heq⟩
  · exact .inl hfailed
  · rw [heq] at hfalse
    exact .inr (by simpa using hfalse)

/-- An admitted observation fails only if it has found the capture dead, except in the last
    millisecond, which it cannot report. -/
theorem gone_of_observe (h : Inv capacity s) (hlookup : s.entries.lookup o.reference = some e)
    (hadmits : (e.admits s.active o).isSome = true)
    (hleft : ∀ elapsed, o.first = some elapsed → elapsed ≤ 999000000 ∨ second ≤ elapsed)
    (hnone : (s.observe o).1 = none) : Gone (s.observe o).2 e.id := by
  obtain ⟨scope, hscope⟩ := Option.isSome_iff_exists.mp hadmits
  obtain ⟨hinv, -⟩ := step_observe_spec h o
  have hobserve : s.observe o = ((e.lifetime.observe o.first o.next).1.bind fun ms =>
      if s.active + o.published = e.snapshot then some (e.reply o scope ms) else none,
      State.touch { s with active := s.active + o.published } o.reference e
        (e.lifetime.observe o.first o.next).2) := by
    unfold State.observe
    simp only [hlookup, hscope]
  rw [hobserve] at hinv hnone ⊢
  refine gone_of_touch hinv ?_
  by_cases hactive : s.active + o.published = e.snapshot
  · left
    -- one of the two readings failed
    have hms : (e.lifetime.observe o.first o.next).1 = none := by
      cases hread : (e.lifetime.observe o.first o.next).1 with
      | none => rfl
      | some ms =>
        rw [hread, Option.bind_some, if_pos hactive] at hnone
        cases hnone
    unfold Lifetime.observe at hms ⊢
    rcases e.lifetime.remaining_cases o.first with ⟨hfail, hfailed, -⟩ |
      ⟨elapsed, hfirst, -, hlt, -, heq⟩
    · rcases hread : e.lifetime.remaining o.first with ⟨remaining, lifetime⟩
      rw [hread] at hfail hfailed
      obtain rfl : remaining = none := hfail
      exact hfailed
    · have hrange : 1 ≤ (second - elapsed) / 1000000 ∧ (second - elapsed) / 1000000 ≤ 1000 := by
        have hleft := (hleft elapsed hfirst).resolve_right (Nat.not_le.mpr hlt)
        unfold second
        omega
      rw [heq] at hms ⊢
      dsimp only at hms ⊢
      rw [if_pos hrange] at hms ⊢
      rcases (Lifetime.mk elapsed false).remaining_cases o.next with
        ⟨-, hfailed, -⟩ | ⟨_, -, -, -, -, hnext⟩
      · exact hfailed
      · rw [hnext] at hms
        cases hms
  · exact .inr hactive

/-- A reply reports what the first reading left, and the last reading is no earlier. -/
theorem remainingMs_of_observe {r : RouteReply} (hlookup : s.entries.lookup o.reference = some e)
    (h : (s.observe o).1 = some r) :
    ∃ elapsed e', e.lifetime.last ≤ elapsed ∧ r.remainingMs = (second - elapsed) / 1000000 ∧
      (s.observe o).2.entries.lookup o.reference = some e' ∧ e'.id = e.id ∧
      elapsed ≤ e'.lifetime.last := by
  unfold State.observe at h ⊢
  simp only [hlookup] at h ⊢
  cases hadmits : e.admits s.active o with
  | none =>
    rw [hadmits] at h
    cases h
  | some scope =>
    rw [hadmits] at h
    dsimp only at h ⊢
    obtain ⟨ms, hms, hreply⟩ := Option.bind_eq_some_iff.mp h
    obtain ⟨elapsed, hlast, hle, rfl, -⟩ := Lifetime.observe_eq_some hms
    split at hreply
    · cases hreply
      exact ⟨elapsed, _, hlast, rfl, lookup_touch_self _ _ _ _, rfl, hle⟩
    · cases hreply

/-- **Captures only expire.** In every reachable state: the entries fit the capacity; a
    capture whose check fails, or whose admitted observation finds the clock (also one second
    or more) or the snapshot against it, is never current again; the time reported for a
    capture never grows; and a dropped capture has no entry any more. -/
theorem route_capture_monotone {capacity : Nat} {initial s : State} {ls : List Label}
    (hnew : State.new capacity = some initial) (hrun : machine.run initial ls = some s) :
    Table.size s.entries ≤ capacity ∧
    ∀ reference e, s.entries.lookup reference = some e →
      (Dead s e → Gone s e.id) ∧
      (∀ reading s', s.current reference e reading = (false, s') → Gone s' e.id) ∧
      (∀ o, o.reference = reference → (e.admits s.active o).isSome = true →
        (∀ elapsed, o.first = some elapsed → elapsed ≤ 999000000 ∨ second ≤ elapsed) →
        (s.observe o).1 = none → Gone (s.observe o).2 e.id) ∧
      (∀ o r, o.reference = reference → (s.observe o).1 = some r →
        ∀ ls' s', machine.run (s.observe o).2 ls' = some s' →
        ∀ o' e' r', s'.entries.lookup o'.reference = some e' → e'.id = e.id →
          (s'.observe o').1 = some r' → r'.remainingMs ≤ r.remainingMs) ∧
      ∀ s', machine.step s (.drop reference) = some s' →
        ∀ ls' s'', machine.run s' ls' = some s'' →
        ∀ reference' e', s''.entries.lookup reference' = some e' → e'.id ≠ e.id := by
  obtain ⟨hinv, -⟩ := run_spec (inv_of_new hnew) hrun
  refine ⟨by have := hinv.permits; omega, fun reference e hlookup =>
    ⟨gone_of_dead hinv hlookup, fun reading s' => gone_of_current hinv hlookup, ?_, ?_, ?_⟩⟩
  · rintro o rfl
    exact gone_of_observe hinv hlookup
  · rintro o r rfl hreply ls' s' hrun' o' e' r' hlookup' hid hreply'
    obtain ⟨hinv', hlater'⟩ := step_observe_spec hinv o
    obtain ⟨-, hlater⟩ := run_spec hinv' hrun'
    obtain ⟨elapsed, after, -, hms, hafter, hafterId, hle⟩ := remainingMs_of_observe hlookup hreply
    obtain ⟨elapsed', _, hlast', hms', -⟩ := remainingMs_of_observe hlookup' hreply'
    obtain ⟨old, hold, holdId, -, holder⟩ := hlater.entries _ _ hlookup'
      (hid ▸ lt_of_lt_of_le (hinv.ids _ _ hlookup) hlater'.nextId)
    -- the entry that is observed again is the one of the first reply
    have href := hinv'.unique _ _ old after hold hafter ((holdId.trans hid).trans hafterId.symm)
    rw [href] at hold
    obtain rfl := Option.some.inj (hold.symm.trans hafter)
    have hlast := holder.last
    rw [hms, hms']
    apply Nat.div_le_div_right
    omega
  · intro s' hdrop ls' s'' hrun' reference' e' hlookup' hid
    obtain ⟨hinv', hlater'⟩ := step_spec hinv hdrop
    obtain ⟨-, hlater⟩ := run_spec hinv' hrun'
    obtain ⟨old, hold, holdId, -⟩ := hlater.entries _ _ hlookup'
      (hid ▸ lt_of_lt_of_le (hinv.ids _ _ hlookup) hlater'.nextId)
    simp only [machine, step] at hdrop
    split at hdrop
    · cases hdrop
      obtain ⟨hne, hkept⟩ := Table.lookup_of_erase hold
      exact hne (hinv.unique _ _ old e hkept hlookup (holdId.trans hid))
    · cases hdrop

/-- A route to capture, enabled and owned. -/
def sampleRequest : Request where
  enabled := true
  owned := true
  routeId := [1]
  scope := some ⟨[1], [1], [1], [1]⟩
  clientIp := .v4 (192, 0, 2, 9)
  revision := 1
  digest := [2]
  uri := [3]
  method := [4]
  destinationSha256 := [5]

/-- A capture is current, and never again once its clock ran backwards. -/
theorem route_capture_monotone_reversal :
    ∃ initial s s' e, State.new 1 = some initial ∧
      machine.run initial [.acquire sampleRequest 0, .insert 0 (some [7]) true true,
        .check [7] [2] [3] [4] (some 500)] = some s ∧ s.entries.lookup [7] = some e ∧
      s.current [7] e (some 400) = (false, s') ∧ Gone s' e.id := by
  obtain ⟨initial, s, s', e, hnew, hrun, hlookup, hcurrent⟩ : ∃ initial s s' e,
      State.new 1 = some initial ∧
      machine.run initial [.acquire sampleRequest 0, .insert 0 (some [7]) true true,
        .check [7] [2] [3] [4] (some 500)] = some s ∧ s.entries.lookup [7] = some e ∧
      s.current [7] e (some 400) = (false, s') := ⟨_, _, _, _, rfl, rfl, rfl, rfl⟩
  exact ⟨initial, s, s', e, hnew, hrun, hlookup, hcurrent,
    ((route_capture_monotone hnew hrun).2 _ _ hlookup).2.1 _ _ hcurrent⟩

end NativeRouteOwner
