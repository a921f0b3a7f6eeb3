import Hangang.Balance.Balancer
import Mathlib.Algebra.Order.Field.Basic
import Mathlib.Algebra.Order.Field.Rat
import Mathlib.Data.UInt

/-! # Selection

    Which node `select_where` chooses.

    * **Some node**: in both modes a scan visits every node once, so a node is found
      exactly if there is one that is selectable and available.
    * **Round robin**: the slots of one cycle are shared out by the weights, and a
      window of consecutive cursors meets each slot once.
    * **Least connections**: the scan compares cross products, which compares the
      loads per weight as rational numbers, and keeps the first minimum. -/

/-- Where a sum of words does not wrap, it is the sum of the numbers. -/
theorem UInt64.toNat_add_of_lt {a b : UInt64} (h : a.toNat + b.toNat < 2 ^ 64) :
    (a + b).toNat = a.toNat + b.toNat := by
  rw [UInt64.toNat_add]
  exact Nat.mod_eq_of_lt h

namespace Balance.Balancer

variable {b : Balancer} {heap : List Node} {nowMs : UInt64} {predicate : Nat → Bool}

/-- The caller selects the node and it is available. -/
def Eligible (heap : List Node) (nowMs : UInt64) (b : Balancer) (predicate : Nat → Bool)
    (index : Nat) : Prop :=
  predicate index = true ∧ b.available heap nowMs index = true

/-! ## Some node -/

theorem lt_of_available {index : Nat} (h : b.available heap nowMs index = true) :
    index < b.nodes.length := by
  unfold available node? at h
  rw [Option.any_eq_true] at h
  obtain ⟨node, hnode, -⟩ := h
  obtain ⟨pointer, hpointer, -⟩ := Option.bind_eq_some_iff.mp hnode
  exact (List.getElem?_eq_some_iff.mp hpointer).1

/-- The best node so far is one that was seen. -/
theorem foldl_better_mem {l : List Nat} {best : Option Nat} {m : Nat}
    (h : l.foldl (b.better heap) best = some m) : m ∈ l ∨ best = some m := by
  induction l generalizing best with
  | nil => exact .inr h
  | cons i l ih =>
    rcases ih h with hmem | hbetter
    · exact .inl (List.mem_cons_of_mem i hmem)
    · unfold better at hbetter
      split at hbetter
      · exact .inl (Option.some.inj hbetter ▸ List.mem_cons_self)
      · split at hbetter
        · exact .inl (Option.some.inj hbetter ▸ List.mem_cons_self)
        · exact .inr hbetter

theorem foldl_better_isSome (l : List Nat) (i : Nat) :
    (l.foldl (b.better heap) (some i)).isSome := by
  induction l generalizing i with
  | nil => rfl
  | cons j l ih =>
    rw [List.foldl_cons]
    unfold better
    dsimp only
    split
    · exact ih j
    · exact ih i

theorem choose_sound {cursor : UInt64} {m : Nat}
    (h : b.choose heap nowMs cursor predicate = some m) : b.Eligible heap nowMs predicate m := by
  unfold choose at h
  dsimp only at h
  split at h
  · rcases foldl_better_mem h with hmem | hnone
    · exact Bool.and_eq_true_iff.mp (List.mem_filter.mp hmem).2
    · cases hnone
  · exact Bool.and_eq_true_iff.mp
      (List.find?_some (p := fun index => predicate index && b.available heap nowMs index) h)

theorem choose_complete {cursor : UInt64} {i : Nat} (h : b.Eligible heap nowMs predicate i) :
    (b.choose heap nowMs cursor predicate).isSome := by
  have hi : i < b.nodes.length := lt_of_available h.2
  have heligible : (predicate i && b.available heap nowMs i) = true :=
    Bool.and_eq_true_iff.mpr h
  unfold choose
  dsimp only
  split
  · have hmem : i ∈ (Scan.rotation (cursor.toNat % b.nodes.length) b.nodes.length).filter
        fun index => predicate index && b.available heap nowMs index :=
      List.mem_filter.mpr ⟨Scan.mem_rotation.mpr hi, heligible⟩
    obtain ⟨first, rest, hlist⟩ := List.exists_cons_of_ne_nil (List.ne_nil_of_mem hmem)
    rw [hlist]
    exact foldl_better_isSome rest first
  · exact List.find?_isSome.mpr ⟨i, Scan.mem_rotation.mpr hi, heligible⟩

/-- **Selection finds a node if there is one**, in every mode and state. -/
theorem selectWhere_iff (b : Balancer) (heap : List Node) (nowMs : UInt64)
    (predicate : Nat → Bool) :
    (∀ m, (b.selectWhere heap nowMs predicate).1 = some m →
      b.Eligible heap nowMs predicate m) ∧
    ((b.selectWhere heap nowMs predicate).1.isSome ↔
      ∃ i, b.Eligible heap nowMs predicate i) := by
  unfold selectWhere
  split
  · next hnil =>
    have hnone : ∀ i, ¬ b.Eligible heap nowMs predicate i := by
      intro i h
      have hi := lt_of_available h.2
      rw [hnil] at hi
      exact absurd hi (Nat.not_lt_zero i)
    refine ⟨fun m h => (by cases h), fun h => (by cases h), ?_⟩
    rintro ⟨i, hi⟩
    exact absurd hi (hnone i)
  · refine ⟨fun m h => choose_sound h, ?_, ?_⟩
    · intro h
      obtain ⟨m, hm⟩ := Option.isSome_iff_exists.mp h
      exact ⟨m, choose_sound hm⟩
    · rintro ⟨i, hi⟩
      exact choose_complete hi

theorem weight_pos (hformed : b.Formed) (i : Nat) : 0 < (b.weight i).toNat := by
  unfold weight
  rw [UInt16.toNat_toUInt64]
  cases hw : b.config.weights[i]? with
  | none => exact Nat.one_pos
  | some w =>
    have hle := (hformed.weights.range w (List.mem_of_getElem? hw)).1
    rw [UInt16.le_iff_toNat_le] at hle
    exact hle

/-! ## Round robin -/

/-- The node that a slot of the cycle belongs to. -/
def owner (b : Balancer) (slot : Nat) : Nat :=
  if b.config.weights = [] then slot else walk b.config.weights 0 slot

/-- A slot within the weights belongs to one of the nodes walked over. -/
theorem walk_bounds {weights : List UInt16} (index : Nat) {slot : Nat}
    (h : slot < (weights.map UInt16.toNat).sum) :
    index ≤ walk weights index slot ∧ walk weights index slot < index + weights.length := by
  induction weights generalizing index slot with
  | nil => exact absurd h (Nat.not_lt_zero slot)
  | cons w weights ih =>
    rw [List.map_cons, List.sum_cons] at h
    unfold walk
    rw [List.length_cons]
    split
    · omega
    · have hrest := @ih (index + 1) (slot - w.toNat) (by omega)
      omega

theorem owner_lt (hformed : b.Formed) {slot : Nat} (h : slot < b.totalWeight) :
    b.owner slot < b.nodes.length := by
  rw [hformed.total] at h
  unfold owner
  split
  · next hnil =>
    rw [if_pos hnil] at h
    exact h
  · next hweights =>
    rw [if_neg hweights] at h
    have hlength := hformed.weights.length.resolve_left hweights
    rw [← hlength]
    exact Nat.zero_add b.config.weights.length ▸ (walk_bounds 0 h).2

/-- A cycle through the weights gives each node as many slots as it weighs. -/
theorem count_walk (weights : List UInt16) (index i : Nat) (w : UInt16)
    (hw : weights[i]? = some w) :
    ((List.range (weights.map UInt16.toNat).sum).map (walk weights index)).count (index + i) =
      w.toNat := by
  induction weights generalizing index i with
  | nil => cases hw
  | cons first weights ih =>
    -- The slots below the first weight go to the first node, the rest to the others.
    have hfirst : (List.range first.toNat).map (walk (first :: weights) index) =
        List.replicate first.toNat index := by
      rw [List.eq_replicate_iff, List.length_map, List.length_range]
      refine ⟨rfl, fun x hx => ?_⟩
      obtain ⟨slot, hslot, rfl⟩ := List.mem_map.mp hx
      exact if_pos (List.mem_range.mp hslot)
    have hrest : ∀ slot, walk (first :: weights) index (first.toNat + slot) =
        walk weights (index + 1) slot := by
      intro slot
      unfold walk
      rw [if_neg (by omega), Nat.add_sub_cancel_left]
      cases weights <;> rfl
    rw [List.map_cons, List.sum_cons, List.range_add, List.map_append, List.map_map, hfirst,
      List.count_append, List.count_replicate]
    have hmap : (walk (first :: weights) index ∘ fun x => first.toNat + x) =
        walk weights (index + 1) := funext hrest
    rw [hmap]
    cases i with
    | zero =>
      obtain rfl : first = w := Option.some.inj hw
      have hnone : ((List.range (weights.map UInt16.toNat).sum).map
          (walk weights (index + 1))).count (index + 0) = 0 := by
        rw [List.count_eq_zero]
        intro hmem
        obtain ⟨slot, hslot, heq⟩ := List.mem_map.mp hmem
        have hle := (walk_bounds (index + 1) (List.mem_range.mp hslot)).1
        omega
      rw [hnone]
      simp
    | succ i =>
      have hi := ih (index + 1) i hw
      rw [show index + (i + 1) = index + 1 + i by omega, hi]
      have hne : (index == index + 1 + i) = false := by
        rw [beq_eq_false_iff_ne]
        omega
      rw [hne]
      simp

/-- The slots of one cycle. -/
theorem count_owner (hformed : b.Formed) {i : Nat} (hi : i < b.nodes.length) :
    ((List.range b.totalWeight).map b.owner).count i = (b.weight i).toNat := by
  rw [hformed.total]
  by_cases hnil : b.config.weights = []
  · have howner : b.owner = id := by
      funext slot
      exact if_pos hnil
    have hweight : b.weight i = 1 := by
      unfold weight
      rw [hnil]
      rfl
    rw [if_pos hnil, howner, List.map_id, hweight]
    exact List.count_eq_one_of_mem List.nodup_range (List.mem_range.mpr hi)
  · have howner : b.owner = walk b.config.weights 0 := by
      funext slot
      exact if_neg hnil
    have hlength := hformed.weights.length.resolve_left hnil
    have hi' : b.config.weights[i]? = some (b.config.weights[i]) :=
      List.getElem?_eq_getElem (hlength.symm ▸ hi)
    have hweight : (b.weight i).toNat = (b.config.weights[i]).toNat := by
      unfold weight
      rw [hi']
      exact UInt16.toNat_toUInt64 _
    rw [if_neg hnil, howner, hweight, ← count_walk b.config.weights 0 i _ hi', Nat.zero_add]

theorem totalWeight_pos (hformed : b.Formed) (hne : b.nodes ≠ []) : 0 < b.totalWeight := by
  have hlength : 0 < b.nodes.length := List.length_pos_of_ne_nil hne
  have hcount := count_owner hformed hlength
  have hweight : 0 < (b.weight 0).toNat := weight_pos hformed 0
  by_contra hzero
  rw [Nat.eq_zero_of_not_pos hzero] at hcount
  simp at hcount
  omega

/-- What one call of `select_where` sees: the nodes, the clock and the predicate. -/
structure View where
  heap : List Node
  nowMs : UInt64
  predicate : Nat → Bool

/-- Calls one after the other. -/
def selections (b : Balancer) : List View → List (Option Nat)
  | [] => []
  | view :: views =>
    let selected := b.selectWhere view.heap view.nowMs view.predicate
    selected.1 :: selections selected.2 views

/-- With every node eligible, round robin takes the owner of the slot. -/
theorem choose_owner (hformed : b.Formed) (hmode : b.config.mode = .roundRobin)
    (hne : b.nodes ≠ []) (hall : ∀ i < b.nodes.length, b.Eligible heap nowMs predicate i)
    (cursor : UInt64) :
    b.choose heap nowMs cursor predicate = some (b.owner (cursor.toNat % b.totalWeight)) := by
  have hslot : cursor.toNat % b.totalWeight < b.totalWeight :=
    Nat.mod_lt _ (totalWeight_pos hformed hne)
  have hlt := owner_lt hformed hslot
  obtain ⟨rest, hrotation⟩ := Scan.rotation_cons hlt
  unfold choose
  rw [hmode]
  show (Scan.rotation (b.owner (cursor.toNat % b.totalWeight)) b.nodes.length).find? _ = _
  rw [hrotation, List.find?_cons_of_pos]
  exact Bool.and_eq_true_iff.mpr (hall _ hlt)

theorem selections_eq (hformed : b.Formed) (hmode : b.config.mode = .roundRobin)
    (hne : b.nodes ≠ []) {views : List View} (hwrap : b.cursor.toNat + views.length ≤ 2 ^ 64)
    (hall : ∀ view ∈ views, ∀ i < b.nodes.length,
      b.Eligible view.heap view.nowMs view.predicate i) :
    b.selections views = (List.range' b.cursor.toNat views.length).map fun cursor =>
      some (b.owner (cursor % b.totalWeight)) := by
  induction views generalizing b with
  | nil => rfl
  | cons view views ih =>
    have hselect : b.selectWhere view.heap view.nowMs view.predicate =
        (some (b.owner (b.cursor.toNat % b.totalWeight)), { b with cursor := b.cursor + 1 }) := by
      unfold selectWhere
      rw [if_neg hne, choose_owner hformed hmode hne (hall view List.mem_cons_self)]
    rw [List.length_cons] at hwrap
    unfold selections
    rw [hselect, List.length_cons, List.range'_succ, List.map_cons]
    dsimp only
    cases views with
    | nil => rfl
    | cons second views =>
      have hcursor : (b.cursor + 1).toNat = b.cursor.toNat + 1 := by
        apply UInt64.toNat_add_of_lt
        rw [List.length_cons] at hwrap
        show b.cursor.toNat + 1 < 2 ^ 64
        omega
      have hrest := @ih { b with cursor := b.cursor + 1 } ⟨hformed.weights, hformed.total⟩ hmode hne
        (by dsimp only; omega) fun view hview => hall view (List.mem_cons_of_mem _ hview)
      rw [hcursor] at hrest
      rw [hrest]
      rfl

/-- **Weighted round robin is exact.** Any `total_weight` selections in a row choose
    each node as often as it weighs, from any cursor that does not wrap meanwhile.
    And in every mode and state, some node is selected exactly if there is one that
    the caller selects and that is available; it is such a node. -/
theorem weighted_round_robin (b : Balancer) (hformed : b.Formed) :
    (b.config.mode = .roundRobin → ∀ views : List View, views.length = b.totalWeight →
      b.cursor.toNat + b.totalWeight ≤ 2 ^ 64 →
      (∀ view ∈ views, ∀ i < b.nodes.length,
        b.Eligible view.heap view.nowMs view.predicate i) →
      ∀ i < b.nodes.length, (b.selections views).count (some i) = (b.weight i).toNat) ∧
    ∀ (heap : List Node) (nowMs : UInt64) (predicate : Nat → Bool),
      (∀ m, (b.selectWhere heap nowMs predicate).1 = some m →
        b.Eligible heap nowMs predicate m) ∧
      ((b.selectWhere heap nowMs predicate).1.isSome ↔
        ∃ i, b.Eligible heap nowMs predicate i) := by
  refine ⟨?_, selectWhere_iff b⟩
  intro hmode views hlength hwrap hall i hi
  have hne : b.nodes ≠ [] := List.ne_nil_of_length_pos (Nat.zero_lt_of_lt hi)
  have hwindow : ((List.range' b.cursor.toNat b.totalWeight).map
      fun cursor => b.owner (cursor % b.totalWeight)).Perm ((List.range b.totalWeight).map b.owner) := by
    have hperm := (Scan.window_perm b.cursor.toNat b.totalWeight).map b.owner
    rw [List.map_map] at hperm
    exact hperm
  calc (b.selections views).count (some i)
      = (((List.range' b.cursor.toNat b.totalWeight).map
          fun cursor => b.owner (cursor % b.totalWeight)).map some).count (some i) := by
        rw [selections_eq hformed hmode hne (hlength ▸ hwrap) hall, hlength, List.map_map]
        rfl
    _ = ((List.range' b.cursor.toNat b.totalWeight).map
          fun cursor => b.owner (cursor % b.totalWeight)).count i :=
        List.count_map_of_injective _ _ (Option.some_injective _) i
    _ = ((List.range b.totalWeight).map b.owner).count i := hwindow.count_eq i
    _ = (b.weight i).toNat := count_owner hformed hi

/-- Three backends share six slots as three, two and one. -/
def shared : List Node × Balancer :=
  new [] ⟨.roundRobin, [3, 2, 1], none, none, none⟩ 3

theorem validWeights_shared : ValidWeights [3, 2, 1] 3 := by
  refine ⟨.inr rfl, ?_⟩
  simp only [List.forall_mem_cons, List.not_mem_nil, false_imp_iff, implies_true, and_true]
  decide

theorem weighted_round_robin_shared :
    ({ shared.2 with cursor := 4 }.selections
        (List.replicate 6 ⟨shared.1, 0, fun _ => true⟩)).count (some 1) = 2 ∧
      ({ shared.2 with cursor := 4 }.selectWhere shared.1 0 (· == 2)).1.isSome := by
  have hformed : { shared.2 with cursor := 4 }.Formed := ⟨validWeights_shared, rfl⟩
  have hall : ∀ view ∈ List.replicate 6 (View.mk shared.1 0 fun _ => true), ∀ i < 3,
      { shared.2 with cursor := 4 }.Eligible view.heap view.nowMs view.predicate i := by
    intro view hview i hi
    obtain rfl := List.eq_of_mem_replicate hview
    refine ⟨rfl, ?_⟩
    revert i
    decide +kernel
  obtain ⟨hexact, hsome⟩ := weighted_round_robin _ hformed
  refine ⟨hexact rfl _ rfl (by decide) hall 1 (by decide), ?_⟩
  exact (hsome shared.1 0 (· == 2)).2.mpr ⟨2, rfl, by decide +kernel⟩

/-! ## Least connections -/

/-- The leases of a node for each unit of its weight. -/
def load (heap : List Node) (b : Balancer) (index : Nat) : ℚ :=
  (b.active heap index).toNat / (b.weight index).toNat

/-- No product of a count and a weight wraps. -/
def NoOverflow (heap : List Node) (b : Balancer) : Prop :=
  ∀ i < b.nodes.length, ∀ j < b.nodes.length,
    (b.active heap i).toNat * (b.weight j).toNat < 2 ^ 64

section leastConnections

theorem active_of_le {i : Nat} (h : b.nodes.length ≤ i) : b.active heap i = 0 := by
  unfold active node?
  rw [List.getElem?_eq_none h]
  rfl

theorem weight_of_le (hformed : b.Formed) {j : Nat} (h : b.nodes.length ≤ j) : b.weight j = 1 := by
  have hnone : b.config.weights[j]? = none := by
    rcases hformed.weights.length with hnil | hlength
    · rw [hnil]
      rfl
    · exact List.getElem?_eq_none (hlength ▸ h)
  unfold weight
  rw [hnone]
  rfl

theorem toNat_product (hformed : b.Formed) (hoverflow : b.NoOverflow heap) (i j : Nat) :
    (b.active heap i * b.weight j).toNat = (b.active heap i).toNat * (b.weight j).toNat := by
  rw [UInt64.toNat_mul]
  apply Nat.mod_eq_of_lt
  by_cases hi : i < b.nodes.length
  · by_cases hj : j < b.nodes.length
    · exact hoverflow i hi j hj
    · rw [weight_of_le hformed (Nat.le_of_not_lt hj)]
      show (b.active heap i).toNat * 1 < 2 ^ 64
      have := (b.active heap i).toNat_lt
      omega
  · rw [active_of_le (Nat.le_of_not_lt hi)]
    show 0 * (b.weight j).toNat < 2 ^ 64
    omega

/-- Comparing cross products compares loads. -/
theorem lt_iff_load_lt (hformed : b.Formed) (hoverflow : b.NoOverflow heap) (i j : Nat) :
    b.active heap i * b.weight j < b.active heap j * b.weight i ↔ b.load heap i < b.load heap j := by
  have hi : (0 : ℚ) < (b.weight i).toNat := Nat.cast_pos.mpr (weight_pos hformed i)
  have hj : (0 : ℚ) < (b.weight j).toNat := Nat.cast_pos.mpr (weight_pos hformed j)
  rw [UInt64.lt_iff_toNat_lt, toNat_product hformed hoverflow, toNat_product hformed hoverflow]
  unfold load
  rw [div_lt_div_iff₀ hi hj]
  exact_mod_cast Iff.rfl

/-- The scan of the source is the one for the first minimum. -/
theorem foldl_better_eq_argmin (hformed : b.Formed) (hoverflow : b.NoOverflow heap) (l : List Nat) :
    l.foldl (b.better heap) none = l.argmin (b.load heap) := by
  show _ = l.foldl (List.argAux fun i j => b.load heap i < b.load heap j) none
  congr 1
  funext best i
  cases best with
  | none => rfl
  | some previous =>
    show (if _ then _ else _) = (if _ then _ else _)
    simp only [lt_iff_load_lt hformed hoverflow]

end leastConnections

/-- **Weighted least connections.** The selected node has the least load for its
    weight among the eligible nodes, as an exact rational number, and every eligible
    node before it in rotation order has a greater one. -/
theorem weighted_least_connections (b : Balancer) (hformed : b.Formed)
    (hmode : b.config.mode = .leastConnections) (heap : List Node) (hoverflow : b.NoOverflow heap)
    (nowMs : UInt64) (predicate : Nat → Bool) (m : Nat)
    (hselected : (b.selectWhere heap nowMs predicate).1 = some m) :
    b.Eligible heap nowMs predicate m ∧
    (∀ i, b.Eligible heap nowMs predicate i → b.load heap m ≤ b.load heap i) ∧
    ∃ before after,
      Scan.rotation (b.cursor.toNat % b.nodes.length) b.nodes.length = before ++ m :: after ∧
      ∀ i ∈ before, b.Eligible heap nowMs predicate i → b.load heap m < b.load heap i := by
  -- the loop computes the least load; the rest is about lists
  have hscan : ((Scan.rotation (b.cursor.toNat % b.nodes.length) b.nodes.length).filter
      fun index => predicate index && b.available heap nowMs index).argmin (b.load heap) =
      some m := by
    unfold selectWhere at hselected
    split at hselected
    · cases hselected
    · unfold choose at hselected
      rw [hmode] at hselected
      rw [← foldl_better_eq_argmin hformed hoverflow]
      exact hselected
  obtain ⟨hm, before, after, hrotation, hbefore, hafter⟩ := Scan.argmin_filter_split hscan
  refine ⟨Bool.and_eq_true_iff.mp hm, ?_, before, after, hrotation, ?_⟩
  · intro i hi
    have heligible : (predicate i && b.available heap nowMs i) = true :=
      Bool.and_eq_true_iff.mpr hi
    have hmem : i ∈ Scan.rotation (b.cursor.toNat % b.nodes.length) b.nodes.length :=
      Scan.mem_rotation.mpr (lt_of_available hi.2)
    rw [hrotation] at hmem
    rcases List.mem_append.mp hmem with hmem | hmem
    · exact le_of_lt (hbefore i hmem heligible)
    · rcases List.mem_cons.mp hmem with rfl | hmem
      · exact le_refl _
      · exact hafter i hmem heligible
  · intro i hmem hi
    exact hbefore i hmem (Bool.and_eq_true_iff.mpr hi)

/-- Three leases on weight three and two on weight two weigh the same; the scan that
    starts at the second node takes that one. -/
def busy : List Node × Balancer :=
  (shared.1.zipWith (fun node leases => { node with admission := leases }) [3, 2, 4],
    { shared.2 with
      config := { shared.2.config with mode := .leastConnections }
      cursor := 7 })

theorem weighted_least_connections_busy :
    (busy.2.selectWhere busy.1 0 fun _ => true).1 = some 1 ∧
      busy.2.load busy.1 1 ≤ busy.2.load busy.1 0 := by
  have hformed : busy.2.Formed := ⟨validWeights_shared, rfl⟩
  have hoverflow : busy.2.NoOverflow busy.1 := by
    show ∀ i < 3, ∀ j < 3, _
    decide +kernel
  have hselected : (busy.2.selectWhere busy.1 0 fun _ => true).1 = some 1 := by decide +kernel
  obtain ⟨-, hleast, -⟩ :=
    weighted_least_connections busy.2 hformed rfl busy.1 hoverflow 0 (fun _ => true) 1 hselected
  exact ⟨hselected, hleast 0 ⟨rfl, by decide +kernel⟩⟩

end Balance.Balancer
