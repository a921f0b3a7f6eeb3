import Hangang.Balance.Balancer
import Hangang.Framework.Lists
import Hangang.MemberAdmission.Gate

/-! # Publication of a Balancer Generation

    A candidate balancer is built beside the published one. It may share nodes with
    it, and it is thrown away when the configuration does not become durable. So
    building must not be visible to anyone who holds a published node, and what is
    retired afterwards must be no node of the successor.

    * **Building**: the loop places one member in each turn. A turn replaces a
      pointer of the candidate, or closes the node that was allocated for it.
    * **Retirement**: the handles are the nodes of the old balancer that the
      successor does not hold, whatever shared them in between. -/

namespace Balance.Balancer

/-! ## One node of the heap -/

def retired (node : Node) : Node :=
  { node with admission := MemberAdmission.retire node.admission }

section heap

variable {heap : List Node} {pointer other : Nat} {node : Node}

theorem retired_retired (node : Node) : retired (retired node) = retired node := by
  unfold retired
  rw [MemberAdmission.retire_retire]

theorem retireNode_self (pointer : Nat) :
    (retireNode heap pointer)[pointer]? = heap[pointer]?.map retired := by
  unfold retireNode
  rw [List.getElem?_modify]
  simp only [if_true]
  rfl

theorem retireNode_ne (hne : pointer ≠ other) :
    (retireNode heap pointer)[other]? = heap[other]? := by
  unfold retireNode
  rw [List.getElem?_modify]
  simp only [hne, if_false]
  exact Option.map_id'

theorem length_retireNode (pointer : Nat) : (retireNode heap pointer).length = heap.length :=
  List.length_modify _ _ _

theorem isOpen_congr {heap' : List Node} (h : heap'[pointer]? = heap[pointer]?) :
    isOpen heap' pointer = isOpen heap pointer := by
  unfold isOpen
  rw [h]

theorem isOpen_retireNode_self (pointer : Nat) :
    isOpen (retireNode heap pointer) pointer = false := by
  unfold isOpen
  rw [retireNode_self]
  cases heap[pointer]? with
  | none => rfl
  | some node => exact MemberAdmission.isOpen_retire node.admission

theorem isOpen_freshNode {config : RouteBalance} (h : heap[pointer]? = some config.freshNode) :
    isOpen heap pointer = true := by
  unfold isOpen
  rw [h]
  exact MemberAdmission.Encodes.serving.isOpen_iff.mpr ⟨rfl, rfl⟩

end heap

/-! ## Building -/

/-- The candidate after its first `turns` members are placed. The nodes allocated for
    it are the ones behind the old heap, in order. -/
structure Placed (heap : List Node) (config : RouteBalance) (states : List DesiredState)
    (turns : Nat) (built : List Node × Balancer) : Prop where
  settings : built.2.config = config
  total : built.2.totalWeight =
    if config.weights = [] then states.length else (config.weights.map UInt16.toNat).sum
  heapLength : built.1.length = heap.length + states.length
  frame : ∀ pointer < heap.length, built.1[pointer]? = heap[pointer]?
  length : built.2.nodes.length = states.length
  origin : ∀ (i pointer : Nat), built.2.nodes[i]? = some pointer →
    pointer = heap.length + i ∨ pointer < heap.length
  fresh : ∀ i, turns ≤ i → i < states.length → built.2.nodes[i]? = some (heap.length + i) ∧
    built.1[heap.length + i]? = some config.freshNode
  placed : ∀ (i : Nat) (state : DesiredState), i < turns → states[i]? = some state →
    ∃ pointer, built.2.nodes[i]? = some pointer ∧ isOpen built.1 pointer = (state == .serving)

section building

variable {heap : List Node} {config : RouteBalance} {previous : Option Balancer}
  {mapping : List (Option Nat)} {states : List DesiredState} {turns : Nat} {state : DesiredState}
  {built : List Node × Balancer}

theorem placed_new : Placed heap config states 0 (new heap config states.length) where
  settings := rfl
  total := rfl
  heapLength := by
    show (heap ++ List.replicate states.length config.freshNode).length = _
    rw [List.length_append, List.length_replicate]
  frame pointer hlt := List.getElem?_append_left hlt
  length := List.length_range'
  origin i pointer h := by
    have h : (List.range' heap.length states.length)[i]? = some pointer := h
    obtain ⟨hlt, rfl⟩ := List.getElem?_eq_some_iff.mp h
    rw [List.getElem_range', Nat.one_mul]
    exact .inl rfl
  fresh i _ hlt := by
    constructor
    · show (List.range' heap.length states.length)[i]? = _
      rw [List.getElem?_range' hlt, Nat.one_mul]
    · show (heap ++ List.replicate states.length config.freshNode)[heap.length + i]? = _
      rw [List.getElem?_append_right (Nat.le_add_right _ _), Nat.add_sub_cancel_left,
        List.getElem?_replicate_of_lt hlt]
  placed i _ h := absurd h (Nat.not_lt_zero i)

/-- A reusable node is one of the old balancer whose gate stands as wanted. -/
theorem reusable_eq_some {index pointer : Nat} {wantedOpen : Bool}
    (h : reusable heap config previous mapping index wantedOpen = some pointer) :
    (∃ old, previous = some old ∧ pointer ∈ old.nodes) ∧ isOpen heap pointer = wantedOpen := by
  unfold reusable at h
  obtain ⟨old, hold, hpointer⟩ := Option.bind_eq_some_iff.mp h
  obtain ⟨hprevious, -⟩ := Option.filter_eq_some_iff.mp hold
  obtain ⟨hmapped, hopen⟩ := Option.filter_eq_some_iff.mp hpointer
  obtain ⟨i, -, hi⟩ := Option.bind_eq_some_iff.mp hmapped
  exact ⟨⟨old, hprevious, List.mem_of_getElem? hi⟩, beq_iff_eq.mp hopen⟩

/-- The member keeps an old node. -/
theorem Placed.reuse (hplaced : Placed heap config states turns built) {pointer : Nat}
    (hstate : states[turns]? = some state) (hold : pointer < heap.length)
    (hopen : isOpen built.1 pointer = (state == .serving)) :
    Placed heap config states (turns + 1)
      (built.1, { built.2 with nodes := built.2.nodes.set turns pointer }) := by
  have hturns : turns < built.2.nodes.length := by
    rw [hplaced.length]
    exact (List.getElem?_eq_some_iff.mp hstate).1
  refine ⟨hplaced.settings, hplaced.total, hplaced.heapLength, hplaced.frame, ?_, ?_, ?_, ?_⟩
  · exact (List.length_set ..).trans hplaced.length
  · intro i other hother
    by_cases hi : turns = i
    · subst hi
      rw [List.getElem?_set_self hturns, Option.some.injEq] at hother
      exact .inr (hother ▸ hold)
    · rw [List.getElem?_set_ne hi] at hother
      exact hplaced.origin i other hother
  · intro i hi hlt
    rw [List.getElem?_set_ne (by omega)]
    exact hplaced.fresh i (by omega) hlt
  · intro i other hi hother
    rcases Nat.lt_succ_iff_lt_or_eq.mp hi with hlt | rfl
    · rw [List.getElem?_set_ne (by omega)]
      exact hplaced.placed i other hlt hother
    · rw [Option.some.inj (hother.symm.trans hstate)]
      exact ⟨pointer, List.getElem?_set_self hturns, hopen⟩

/-- A serving member without an old node has its fresh one. -/
theorem Placed.keep (hplaced : Placed heap config states turns built)
    (hstate : states[turns]? = some state) (hserving : (state == .serving) = true) :
    Placed heap config states (turns + 1) built := by
  have hturns : turns < states.length := (List.getElem?_eq_some_iff.mp hstate).1
  refine ⟨hplaced.settings, hplaced.total, hplaced.heapLength, hplaced.frame, hplaced.length,
    hplaced.origin, fun i hi => hplaced.fresh i (by omega), ?_⟩
  intro i other hi hother
  rcases Nat.lt_succ_iff_lt_or_eq.mp hi with hlt | rfl
  · exact hplaced.placed i other hlt hother
  · rw [Option.some.inj (hother.symm.trans hstate), hserving]
    obtain ⟨hnode, hfresh⟩ := hplaced.fresh i (Nat.le_refl _) hturns
    exact ⟨_, hnode, isOpen_freshNode hfresh⟩

/-- A member that does not serve closes its fresh node, which nobody else holds. -/
theorem Placed.close (hplaced : Placed heap config states turns built)
    (hstate : states[turns]? = some state) (hclosed : (state == .serving) = false) :
    Placed heap config states (turns + 1)
      (retireNode built.1 (heap.length + turns), built.2) := by
  have hturns : turns < states.length := (List.getElem?_eq_some_iff.mp hstate).1
  refine ⟨hplaced.settings, hplaced.total, ?_, ?_, hplaced.length, hplaced.origin, ?_, ?_⟩
  · exact (length_retireNode _).trans hplaced.heapLength
  · intro pointer hlt
    rw [retireNode_ne (by omega)]
    exact hplaced.frame pointer hlt
  · intro i hi hlt
    rw [retireNode_ne (by omega)]
    exact hplaced.fresh i (by omega) hlt
  · intro i other hi hother
    rcases Nat.lt_succ_iff_lt_or_eq.mp hi with hlt | rfl
    · obtain ⟨pointer, hpointer, hopen⟩ := hplaced.placed i other hlt hother
      have hne : heap.length + turns ≠ pointer := by
        rcases hplaced.origin i pointer hpointer with heq | hold <;> omega
      exact ⟨pointer, hpointer, (isOpen_congr (retireNode_ne hne)).trans hopen⟩
    · rw [Option.some.inj (hother.symm.trans hstate), hclosed]
      obtain ⟨hnode, -⟩ := hplaced.fresh i (Nat.le_refl _) hturns
      exact ⟨_, hnode, isOpen_retireNode_self _⟩

/-- One turn of the loop. -/
theorem Placed.turn (hplaced : Placed heap config states turns built)
    (hlive : ∀ old, previous = some old → old.Live heap) (hstate : states[turns]? = some state) :
    Placed heap config states (turns + 1) (placeMember previous mapping built (state, turns)) := by
  have hturns : turns < states.length := (List.getElem?_eq_some_iff.mp hstate).1
  obtain ⟨hnode, -⟩ := hplaced.fresh turns (Nat.le_refl _) hturns
  unfold placeMember
  dsimp only
  split
  · next pointer hreusable =>
    obtain ⟨⟨old, hold, hmem⟩, hopen⟩ := reusable_eq_some hreusable
    exact hplaced.reuse hstate (hlive old hold pointer hmem) hopen
  · split
    · next hserving => exact hplaced.keep hstate hserving
    · next hserving =>
      rw [hnode]
      exact hplaced.close hstate (Bool.eq_false_of_not_eq_true hserving)

/-- **The loop places every member.** -/
theorem withMemberStates_placed {heap' : List Node} {next : Balancer}
    (hlive : ∀ old, previous = some old → old.Live heap)
    (h : withMemberStates heap config previous mapping states = some (heap', next)) :
    Placed heap config states states.length (heap', next) := by
  unfold withMemberStates at h
  split at h
  · cases h
  · rw [← Option.some.inj h]
    apply List.foldl_zipIdx_invariant (Placed heap config states) placed_new
    intro i state built hstate hplaced
    exact hplaced.turn hlive hstate

theorem Placed.live (hplaced : Placed heap config states turns built) : built.2.Live built.1 := by
  intro pointer hmem
  obtain ⟨i, hi⟩ := List.getElem?_of_mem hmem
  have hlt : i < built.2.nodes.length := (List.getElem?_eq_some_iff.mp hi).1
  have hlength := hplaced.length
  have hheap := hplaced.heapLength
  rcases hplaced.origin i pointer hi with heq | hold <;> omega

end building

/-! ## Retirement -/

theorem mem_retirements {old : Balancer} {next : Balancer} {pointer : Nat} :
    pointer ∈ (old.retirements (some next)).map Prod.fst ↔
      pointer ∈ old.nodes ∧ pointer ∉ next.nodes := by
  unfold retirements
  constructor
  · intro h
    obtain ⟨⟨p, i⟩, hmem, rfl⟩ := List.mem_map.mp h
    obtain ⟨hnode, hunshared⟩ := List.mem_filter.mp hmem
    exact ⟨List.fst_mem_of_mem_zipIdx hnode, by simpa using hunshared⟩
  · rintro ⟨hnode, hunshared⟩
    obtain ⟨i, hi⟩ := List.getElem?_of_mem hnode
    refine List.mem_map.mpr ⟨(pointer, i), List.mem_filter.mpr ⟨?_, by simpa using hunshared⟩, rfl⟩
    exact List.mem_zipIdx_iff_getElem?.mpr hi

/-- Retiring a node again changes nothing, so a node with several handles is retired
    like one with a single handle. -/
theorem retireAll_getElem? (heap : List Node) (handles : List (Nat × Nat)) (pointer : Nat) :
    (retireAll heap handles)[pointer]? =
      if pointer ∈ handles.map Prod.fst then heap[pointer]?.map retired else heap[pointer]? := by
  unfold retireAll
  induction handles generalizing heap with
  | nil => rfl
  | cons handle handles ih =>
    rw [List.foldl_cons, ih, List.map_cons]
    by_cases hself : handle.1 = pointer
    · rw [hself, retireNode_self, if_pos List.mem_cons_self]
      split
      · rw [Option.map_map]
        exact congrArg (Option.map · _) (funext retired_retired)
      · rfl
    · rw [retireNode_ne hself]
      have hiff : pointer ∈ handle.1 :: handles.map Prod.fst ↔ pointer ∈ handles.map Prod.fst := by
        rw [List.mem_cons]
        exact ⟨fun h => h.resolve_left fun heq => hself heq.symm, Or.inr⟩
      simp only [hiff]

/-! ## Publication -/

/-- What building a candidate does, and what retiring the rest of the old generation
    does whenever it happens. -/
structure Published (heap : List Node) (old : Option Balancer) (states : List DesiredState)
    (heap' : List Node) (next : Balancer) : Prop where
  /-- No node that existed is changed: neither its gate nor its leases nor its health. -/
  frame : ∀ pointer < heap.length, heap'[pointer]? = heap[pointer]?
  live : next.Live heap'
  length : next.nodes.length = states.length
  /-- A gate is open exactly where the member shall serve. -/
  gates : ∀ (i : Nat) (state : DesiredState), states[i]? = some state →
    ∃ pointer node, next.nodes[i]? = some pointer ∧ heap'[pointer]? = some node ∧
      (MemberAdmission.isOpen node.admission = true ↔ state = .serving)
  /-- The old nodes that are not shared are closed, with their leases and their health
      as they are by then. -/
  retired : ∀ previous later, old = some previous → ∀ pointer ∈ previous.nodes,
    pointer ∉ next.nodes →
    (retireAll later (previous.retirements (some next)))[pointer]? =
        later[pointer]?.map Balancer.retired ∧
      isOpen (retireAll later (previous.retirements (some next))) pointer = false
  /-- Every other node stays, above all those of the successor. -/
  kept : ∀ previous later pointer, old = some previous →
    pointer ∉ previous.nodes ∨ pointer ∈ next.nodes →
    (retireAll later (previous.retirements (some next)))[pointer]? = later[pointer]?

/-- **A generation is built unseen and replaces the old one exactly.** For every old
    balancer, mapping, desired states and configuration. Only a mapping that does not
    fit the states makes the construction fail. -/
theorem generation_publication (heap : List Node) (config : RouteBalance)
    (old : Option { b : Balancer // b.Live heap }) (mapping : List (Option Nat))
    (states : List DesiredState) :
    ((withMemberStates heap config (old.map Subtype.val) mapping states).isSome ↔
      (old.isSome → mapping.length = states.length)) ∧
    ∀ heap' next,
      withMemberStates heap config (old.map Subtype.val) mapping states = some (heap', next) →
      Published heap (old.map Subtype.val) states heap' next := by
  constructor
  · unfold withMemberStates
    rw [Option.isSome_map]
    split
    · next hmismatch => simp [hmismatch.1, hmismatch.2]
    · next hfits =>
      simp only [Option.isSome_some, true_iff]
      intro hsome
      exact Decidable.of_not_not fun hne => hfits ⟨hsome, hne⟩
  · intro heap' next h
    -- the old balancer is alive by its type
    have hlive : ∀ b, old.map Subtype.val = some b → b.Live heap := by
      intro b hb
      obtain ⟨previous, -, rfl⟩ := Option.map_eq_some_iff.mp hb
      exact previous.2
    have hplaced := withMemberStates_placed hlive h
    refine ⟨hplaced.frame, hplaced.live, hplaced.length, ?_, ?_, ?_⟩
    -- each member stands at its place, and is open as its state says
    · intro i state hstate
      have hlt : i < states.length := (List.getElem?_eq_some_iff.mp hstate).1
      obtain ⟨pointer, hpointer, hopen⟩ := hplaced.placed i state hlt hstate
      have hmem : pointer < heap'.length := hplaced.live pointer (List.mem_of_getElem? hpointer)
      have hnode : heap'[pointer]? = some heap'[pointer] := List.getElem?_eq_getElem hmem
      refine ⟨pointer, _, hpointer, hnode, ?_⟩
      unfold isOpen at hopen
      rw [hnode, Option.any_some] at hopen
      rw [hopen, beq_iff_eq]
    -- retired: the nodes that the new generation does not share
    · intro previous later hprevious pointer hmem hunshared
      have hnode : (retireAll later (previous.retirements (some next)))[pointer]? =
          later[pointer]?.map Balancer.retired := by
        rw [retireAll_getElem?, if_pos (mem_retirements.mpr ⟨hmem, hunshared⟩)]
      refine ⟨hnode, ?_⟩
      unfold isOpen
      rw [hnode]
      cases later[pointer]? with
      | none => rfl
      | some node => exact MemberAdmission.isOpen_retire node.admission
    · intro previous later pointer hprevious hother
      rw [retireAll_getElem?, if_neg]
      intro hhandle
      obtain ⟨hmem, hunshared⟩ := mem_retirements.mp hhandle
      exact hother.elim (fun h => h hmem) hunshared

def plainBalance : RouteBalance := ⟨.roundRobin, [], none, none, none⟩

/-- Two nodes, the first of them with a lease. -/
def twoNodes : List Node :=
  [{ plainBalance.freshNode with admission := 1 }, plainBalance.freshNode]

/-- A balancer over both. -/
def overTwo : Balancer := ⟨plainBalance, [0, 1], 7, 2⟩

/-- Two members of the next generation name the first old node, and one of them shall
    not serve. It gets a closed node of its own; the second old node is retired. -/
theorem generation_publication_drain :
    ∃ heap' next,
      withMemberStates twoNodes plainBalance (some overTwo) [some 0, some 0, none]
        [.serving, .draining, .serving] = some (heap', next) ∧
      next.nodes = [0, 3, 4] ∧
      (overTwo.retirements (some next)) = [(1, 1)] ∧
      Published twoNodes (some overTwo) [.serving, .draining, .serving] heap' next := by
  have hlive : overTwo.Live twoNodes := by
    show ∀ pointer ∈ [0, 1], pointer < 2
    decide
  obtain ⟨heap', next, hbuilt, hnodes, hhandles⟩ : ∃ heap' next,
      withMemberStates twoNodes plainBalance (some overTwo) [some 0, some 0, none]
        [.serving, .draining, .serving] = some (heap', next) ∧
      next.nodes = [0, 3, 4] ∧ (overTwo.retirements (some next)) = [(1, 1)] :=
    ⟨_, _, rfl, by decide +kernel, by decide +kernel⟩
  exact ⟨heap', next, hbuilt, hnodes, hhandles,
    (generation_publication twoNodes plainBalance (some ⟨overTwo, hlive⟩) _ _).2 heap' next hbuilt⟩

end Balance.Balancer
