import Mathlib.Algebra.GroupWithZero.Nat
import Mathlib.Data.List.AList

/-! # Tables

    Finite maps with a size, as programs use hash maps: `AList` with a constant
    value type, and the operations it lacks: `retain`, and `mapValues` for a loop
    over the mutable values. -/

/-- A finite map from `K` to `V`. -/
abbrev Table (K : Type u) (V : Type v) : Type (max u v) := AList fun _ : K => V

namespace Table

variable {K : Type u} {V : Type v} [DecidableEq K]

def size (t : Table K V) : Nat := t.entries.length

/-- Keeps the entries that satisfy `p`. -/
def retain (p : K → V → Bool) (t : Table K V) : Table K V where
  entries := t.entries.filter fun e => p e.1 e.2
  nodupKeys := t.nodupKeys.sublist List.filter_sublist

theorem lookup_retain (p : K → V → Bool) (t : Table K V) (k : K) :
    (retain p t).lookup k = (t.lookup k).filter (p k) := by
  apply Option.ext
  intro v
  have hretain : v ∈ (retain p t).lookup k ↔
      (⟨k, v⟩ : Sigma fun _ : K => V) ∈ t.entries ∧ p k v := by
    rw [AList.mem_lookup_iff, retain]
    simp
  rw [← Option.mem_def, ← Option.mem_def, hretain, Option.mem_filter_iff, AList.mem_lookup_iff]

/-- Replaces every value. -/
def mapValues {W : Type w} (f : K → V → W) (t : Table K V) : Table K W where
  entries := t.entries.map fun e => ⟨e.1, f e.1 e.2⟩
  nodupKeys := by
    show (List.map Sigma.fst (t.entries.map _)).Nodup
    rw [List.map_map]
    exact t.nodupKeys

variable {k k' : K} {t : Table K V} {v : V}

theorem mem_keys_of_lookup (h : t.lookup k = some v) :
    k ∈ t.keys := by
  apply AList.mem_keys.mp
  rw [← AList.lookup_isSome, h, Option.isSome_some]

theorem lookup_of_erase (h : (t.erase k).lookup k' = some v) :
    k' ≠ k ∧ t.lookup k' = some v := by
  by_cases hk : k' = k
  · rw [hk, AList.lookup_erase] at h
    simp at h
  · rw [AList.lookup_erase_ne hk] at h
    exact ⟨hk, h⟩

theorem lookup_of_insert {v' : V} (h : (t.insert k v).lookup k' = some v') :
    k' = k ∧ v' = v ∨ t.lookup k' = some v' := by
  by_cases hk : k' = k
  · rw [hk, AList.lookup_insert, Option.some.injEq] at h
    exact .inl ⟨hk, h.symm⟩
  · rw [AList.lookup_insert_ne hk] at h
    exact .inr h

theorem isSome_insert (h : (t.lookup k').isSome = true) :
    ((t.insert k v).lookup k').isSome = true := by
  by_cases hk : k' = k
  · rw [hk, AList.lookup_insert]
    rfl
  · rwa [AList.lookup_insert_ne hk]

/-! ## Sizes -/

theorem size_erase_le (t : Table K V) (k : K) : size (t.erase k) ≤ size t :=
  (List.kerase_sublist k t.entries).length_le

theorem size_insert_le (t : Table K V) (k : K) (v : V) : size (t.insert k v) ≤ size t + 1 :=
  Nat.succ_le_succ (size_erase_le t k)

theorem size_erase_of_mem (h : k ∈ t) : size (t.erase k) + 1 = size t := by
  obtain ⟨b, before, after, -, hentries, herase⟩ := List.exists_of_kerase (AList.mem_keys.mp h)
  show (List.kerase k t.entries).length + 1 = t.entries.length
  rw [herase, hentries, List.length_append, List.length_append, List.length_cons]
  omega

/-- A known key takes no more room. -/
theorem size_insert_known {w : V} (h : t.lookup k = some w) :
    size (t.insert k v) = size t :=
  size_erase_of_mem (AList.mem_keys.mpr (mem_keys_of_lookup h))

theorem size_insert_new (h : k ∉ t) :
    size (t.insert k v) = size t + 1 := by
  show (List.kerase k t.entries).length + 1 = t.entries.length + 1
  rw [List.kerase_of_notMem_keys h]

/-- **Size rule**: what is in one table is in the other. -/
theorem size_le_of_lookup {t' : Table K V} (h : ∀ k v, t.lookup k = some v → t'.lookup k = some v) :
    size t ≤ size t' := by
  have hsub : t.entries ⊆ t'.entries := fun entry hentry =>
    AList.mem_lookup_iff.mp (h entry.1 entry.2 (AList.mem_lookup_iff.mpr hentry))
  exact (List.subperm_of_subset t.nodupKeys.nodup hsub).length_le

/-- If something is missing, there is less. -/
theorem size_lt_of_lookup {t' : Table K V} (h : ∀ k v, t.lookup k = some v → t'.lookup k = some v)
    (hnone : t.lookup k = none) (hsome : t'.lookup k = some v) : size t < size t' := by
  have hinsert : size (t.insert k v) ≤ size t' := by
    refine size_le_of_lookup fun k' v' hlookup => ?_
    rcases lookup_of_insert hlookup with ⟨rfl, rfl⟩ | hold
    · exact hsome
    · exact h k' v' hold
  rwa [size_insert_new (AList.lookup_eq_none.mp hnone)] at hinsert

/-! ## Totals -/

/-- The sum over the entries. -/
def sum (f : K → V → Nat) (t : Table K V) : Nat := (t.entries.map fun e => f e.1 e.2).sum

theorem sum_insert (f : K → V → Nat) (t : Table K V) (k : K) (v : V) :
    sum f (t.insert k v) = sum f (t.erase k) + f k v :=
  Nat.add_comm _ _

theorem sum_erase (f : K → V → Nat) (h : t.lookup k = some v) :
    sum f (t.erase k) + f k v = sum f t := by
  obtain ⟨w, before, after, -, hentries, herase⟩ :=
    List.exists_of_kerase (AList.mem_keys.mp (mem_keys_of_lookup h))
  have hw : t.lookup k = some w := by
    rw [← Option.mem_def, AList.mem_lookup_iff, hentries]
    exact List.mem_append_right _ List.mem_cons_self
  obtain rfl : v = w := Option.some.inj (h.symm.trans hw)
  show ((List.kerase k t.entries).map _).sum + _ = (t.entries.map _).sum
  rw [herase, hentries, List.map_append, List.map_append, List.sum_append, List.sum_append,
    List.map_cons, List.sum_cons]
  dsimp only
  omega

theorem sum_congr {f g : K → V → Nat} (h : ∀ k v, t.lookup k = some v → f k v = g k v) :
    sum f t = sum g t :=
  congrArg List.sum (List.map_congr_left fun e he => h e.1 e.2 (AList.mem_lookup_iff.mpr he))

theorem sum_eq_zero {f : K → V → Nat} (h : ∀ k v, t.lookup k = some v → f k v = 0) :
    sum f t = 0 := by
  rw [sum_congr h]
  unfold sum
  induction t.entries with
  | nil => rfl
  | cons e entries ih => rw [List.map_cons, List.sum_cons, ih]

omit [DecidableEq K] in
theorem sum_retain (f : K → V → Nat) (p : K → V → Bool) (t : Table K V) :
    sum f (retain p t) = sum (fun k v => if p k v then f k v else 0) t := by
  obtain ⟨entries, hnodup⟩ := t
  show ((entries.filter fun e => p e.1 e.2).map _).sum = (entries.map _).sum
  clear hnodup
  induction entries with
  | nil => rfl
  | cons e entries ih =>
    rw [List.map_cons, List.sum_cons, ← ih, List.filter_cons]
    dsimp only
    split
    · rw [List.map_cons, List.sum_cons]
    · rw [Nat.zero_add]

theorem erase_of_lookup_none (h : t.lookup k = none) : t.erase k = t :=
  AList.ext (List.kerase_of_notMem_keys (AList.lookup_eq_none.mp h))

theorem insert_erase (t : Table K V) (k : K) (v : V) : (t.erase k).insert k v = t.insert k v := by
  have hkerase : List.kerase k (List.kerase k t.entries) = List.kerase k t.entries :=
    List.kerase_of_notMem_keys (List.notMem_keys_kerase k t.nodupKeys)
  apply AList.ext
  show (⟨k, v⟩ : Sigma fun _ : K => V) :: List.kerase k (List.kerase k t.entries) = _
  rw [hkerase]
  rfl

/-! ## Extension -/

/-- Inserts the entries of another table. -/
def extend (t other : Table K V) : Table K V :=
  other.entries.foldl (fun t e => t.insert e.1 e.2) t

theorem lookup_of_extend {other : Table K V} (h : (extend t other).lookup k = some v) :
    t.lookup k = some v ∨ other.lookup k = some v := by
  have hfold : ∀ (entries : List (Sigma fun _ : K => V)) (t : Table K V),
      (entries.foldl (fun t e => t.insert e.1 e.2) t).lookup k = some v →
        t.lookup k = some v ∨ (⟨k, v⟩ : Sigma fun _ : K => V) ∈ entries := by
    intro entries
    induction entries with
    | nil => exact fun _ => Or.inl
    | cons e entries ih =>
      intro t h
      rcases ih _ h with hlookup | hmem
      · rcases lookup_of_insert hlookup with ⟨rfl, rfl⟩ | hlookup
        · exact .inr List.mem_cons_self
        · exact .inl hlookup
      · exact .inr (List.mem_cons_of_mem _ hmem)
  rcases hfold other.entries t h with hlookup | hmem
  · exact .inl hlookup
  · exact .inr (AList.mem_lookup_iff.mpr hmem)

theorem sum_extend (f : K → V → Nat) {other : Table K V} (h : ∀ k, k ∈ other → t.lookup k = none) :
    sum f (extend t other) = sum f t + sum f other := by
  have hfold : ∀ (entries : List (Sigma fun _ : K => V)) (t : Table K V),
      entries.NodupKeys → (∀ e ∈ entries, t.lookup e.1 = none) →
        sum f (entries.foldl (fun t e => t.insert e.1 e.2) t) =
          sum f t + (entries.map fun e => f e.1 e.2).sum := by
    intro entries
    induction entries with
    | nil => exact fun _ _ _ => rfl
    | cons e entries ih =>
      intro t hnodup hnone
      obtain ⟨hkey, hnodup⟩ := List.nodupKeys_cons.mp hnodup
      rw [List.foldl_cons, ih (t.insert e.1 e.2) hnodup ?_, sum_insert,
        erase_of_lookup_none (hnone e List.mem_cons_self), List.map_cons, List.sum_cons]
      · omega
      · intro e' he'
        have hne : e'.1 ≠ e.1 := fun heq =>
          hkey (heq ▸ List.mem_keys_of_mem he')
        rw [AList.lookup_insert_ne hne]
        exact hnone e' (List.mem_cons_of_mem _ he')
  exact hfold other.entries t other.nodupKeys fun e he =>
    h e.1 (AList.mem_keys.mpr (List.mem_keys_of_mem he))

end Table
