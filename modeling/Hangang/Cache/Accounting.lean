import Hangang.Cache.Memory

/-! # Accounting of the Memory Tier

    The tier keeps a map of its items, an index of their sequence numbers and a count of their
    bytes. Every operation changes all three, and an insertion goes on to evict until the tier
    is within its limits.

    * **Accounted**: index and count agree with the map, in the order of the numbers.
    * **Queue**: the keys in the order of the index. A hit of an LRU tier and an insertion put
      their key at the end; victims leave at the front. -/

open Bytes

namespace Cache

namespace MemoryState

/-- An operation of the tier, with its arguments. -/
inductive Op where
  | get (key : Bytes) (now : UInt64)
  | insert (key : Bytes) (entry : CacheEntry) (size : Nat)
  | clear

def apply (config : MemoryConfig) (m : MemoryState) : Op → MemoryState
  | .get key now => (m.get key now config.eviction).2
  | .insert key entry size => (m.insert key entry size config).2
  | .clear => m.clear

/-- The tier after some operations. -/
def run (config : MemoryConfig) (ops : List Op) : MemoryState := ops.foldl (apply config) empty

/-- The sizes of the items. -/
def total (m : MemoryState) : Nat := Table.sum (fun _ item => item.size) m.entries

/-- The keys in the order of the index. -/
def queue (m : MemoryState) : List Bytes := m.order.map Prod.snd

/-- Index and count agree with the map. -/
structure Indexed (eviction : Eviction) (m : MemoryState) : Prop where
  /-- The index holds each item under its number, and nothing else. -/
  index : ∀ number key, (number, key) ∈ m.order ↔
    ∃ item, m.entries.lookup key = some item ∧ item.sequence eviction = number
  ordered : m.order.Pairwise fun a b => a.1 < b.1
  bounded : ∀ x ∈ m.order, x.1 ≤ m.sequence
  bytes : m.bytes = m.total

structure Accounted (config : MemoryConfig) (m : MemoryState) : Prop extends
    m.Indexed config.eviction where
  maxBytes : m.bytes ≤ config.maxBytes
  maxEntries : m.entries.size ≤ config.maxEntries

/-! ## The index -/

section index

variable {eviction : Eviction} {m : MemoryState}

theorem Indexed.nodup (h : m.Indexed eviction) : m.order.Nodup :=
  h.ordered.imp fun hlt heq => absurd (congrArg Prod.fst heq) (Nat.ne_of_lt hlt)

/-- A key is in the index once. -/
theorem Indexed.nodup_queue (h : m.Indexed eviction) : m.queue.Nodup := by
  refine List.Nodup.map_on (fun x hx y hy heq => ?_) h.nodup
  obtain ⟨item, hitem, hnumber⟩ := (h.index x.1 x.2).mp hx
  obtain ⟨item', hitem', hnumber'⟩ := (h.index y.1 y.2).mp hy
  rw [heq, hitem'] at hitem
  obtain rfl := Option.some.inj hitem
  exact Prod.ext (hnumber.symm.trans hnumber') heq

variable {key : Bytes}

theorem Indexed.mem_queue (h : m.Indexed eviction) :
    key ∈ m.queue ↔ (m.entries.lookup key).isSome = true := by
  rw [queue, List.mem_map, Option.isSome_iff_exists]
  constructor
  · rintro ⟨⟨number, key⟩, hmem, rfl⟩
    obtain ⟨item, hitem, -⟩ := (h.index number key).mp hmem
    exact ⟨item, hitem⟩
  · rintro ⟨item, hitem⟩
    exact ⟨(item.sequence eviction, key), (h.index _ _).mpr ⟨item, hitem, rfl⟩, rfl⟩

/-- The numbers after one operation more are not used up. -/
theorem sequence_next (h : m.sequence + 1 < 2 ^ 64) :
    saturatingAdd m.sequence 1 = m.sequence + 1 := by
  unfold saturatingAdd
  omega

/-- A new number goes to the end. -/
theorem orderInsert_last {number : Nat} {order : List (Nat × Bytes)}
    (h : ∀ x ∈ order, x.1 < number) :
    orderInsert (number, key) order = order ++ [(number, key)] := by
  induction order with
  | nil => rfl
  | cons y order ih =>
    have hy : y.1 < number := h y List.mem_cons_self
    have hne : (number, key) ≠ y := by
      rintro rfl
      exact Nat.lt_irrefl _ hy
    have hprecedes : precedes (number, key) y = false := by
      simp only [precedes, Bool.or_eq_false_iff, decide_eq_false_iff_not, Bool.and_eq_false_iff,
        beq_eq_false_iff_ne, ne_eq]
      omega
    rw [orderInsert, if_neg hne, hprecedes, if_neg Bool.false_ne_true,
      ih fun x hx => h x (List.mem_cons_of_mem _ hx)]
    rfl

theorem map_erase_of_nodup {order : List (Nat × Bytes)} (hnodup : (order.map Prod.snd).Nodup)
    {x : Nat × Bytes} (hx : x ∈ order) :
    (order.erase x).map Prod.snd = (order.map Prod.snd).erase x.2 := by
  induction order with
  | nil => cases hx
  | cons y order ih =>
    rw [List.map_cons, List.nodup_cons] at hnodup
    by_cases heq : y = x
    · subst heq
      rw [List.erase_cons_head, List.map_cons, List.erase_cons_head]
    · have hmem : x ∈ order := (List.mem_cons.mp hx).resolve_left (Ne.symm heq)
      have hne : y.2 ≠ x.2 := fun hkey =>
        hnodup.1 (hkey ▸ List.mem_map_of_mem hmem)
      rw [List.erase_cons_tail (by simpa using heq), List.map_cons, List.map_cons,
        List.erase_cons_tail (by simpa using hne), ih hnodup.2 hmem]

/-- An item is taken out. -/
theorem Indexed.remove (h : m.Indexed eviction) {item : MemoryItem}
    (hitem : m.entries.lookup key = some item) :
    (m.remove key item eviction).Indexed eviction ∧
      (m.remove key item eviction).queue = m.queue.erase key := by
  have hmem : (item.sequence eviction, key) ∈ m.order := (h.index _ _).mpr ⟨item, hitem, rfl⟩
  refine ⟨⟨fun number k => ?_, h.ordered.sublist List.erase_sublist,
    fun x hx => h.bounded x (List.mem_of_mem_erase hx), ?_⟩, map_erase_of_nodup h.nodup_queue hmem⟩
  · show (number, k) ∈ m.order.erase _ ↔ ∃ found, (m.entries.erase key).lookup k = some found ∧ _
    rw [h.nodup.mem_erase_iff, h.index]
    constructor
    · rintro ⟨hne, found, hfound, rfl⟩
      have hk : k ≠ key := by
        rintro rfl
        rw [hitem] at hfound
        obtain rfl := Option.some.inj hfound
        exact hne rfl
      exact ⟨found, (AList.lookup_erase_ne hk).trans hfound, rfl⟩
    · rintro ⟨found, hfound, rfl⟩
      obtain ⟨hk, hfound⟩ := Table.lookup_of_erase hfound
      exact ⟨fun heq => hk (Prod.mk.inj heq).2, found, hfound, rfl⟩
  · show m.bytes - item.size = Table.sum _ (m.entries.erase key)
    have hsum := Table.sum_erase (fun _ item => item.size) hitem
    rw [h.bytes, total]
    omega

/-- An item is put in under the next number, where there was none under its key. -/
theorem Indexed.put (h : m.Indexed eviction) {key : Bytes} {item : MemoryItem}
    (hnone : m.entries.lookup key = none) (hitem : item.sequence eviction = m.sequence + 1) :
    ({ entries := m.entries.insert key item
       order := m.order ++ [(m.sequence + 1, key)]
       bytes := m.bytes + item.size
       sequence := m.sequence + 1 } : MemoryState).Indexed eviction := by
  refine ⟨fun number k => ?_, ?_, fun x hx => ?_, ?_⟩
  · rw [List.mem_append, List.mem_singleton, h.index]
    constructor
    · rintro (⟨found, hfound, rfl⟩ | heq)
      · have hk : k ≠ key := by
          rintro rfl
          rw [hnone] at hfound
          cases hfound
        exact ⟨found, (AList.lookup_insert_ne hk).trans hfound, rfl⟩
      · obtain ⟨rfl, rfl⟩ := Prod.mk.inj heq
        exact ⟨item, AList.lookup_insert _, hitem⟩
    · rintro ⟨found, hfound, rfl⟩
      rcases Table.lookup_of_insert hfound with ⟨rfl, rfl⟩ | hfound
      · exact .inr (Prod.ext hitem rfl)
      · exact .inl ⟨found, hfound, rfl⟩
  · refine List.pairwise_append.mpr ⟨h.ordered, List.pairwise_singleton _ _, fun x hx y hy => ?_⟩
    rw [List.mem_singleton.mp hy]
    exact Nat.lt_succ_of_le (h.bounded x hx)
  · rcases List.mem_append.mp hx with hx | hx
    · exact Nat.le_succ_of_le (h.bounded x hx)
    · rw [List.mem_singleton.mp hx]
  · show m.bytes + item.size = Table.sum _ (m.entries.insert key item)
    rw [Table.sum_insert, Table.erase_of_lookup_none hnone, h.bytes]
    rfl

/-- Nothing is stored if nothing is in the index. -/
theorem Indexed.of_nil (h : m.Indexed eviction) (horder : m.order = []) :
    m.bytes = 0 ∧ m.entries.size = 0 := by
  have hsize : m.entries.size ≤ (∅ : Table Bytes MemoryItem).size := by
    refine Table.size_le_of_lookup fun key item hitem => ?_
    have hmem := (h.index _ _).mpr ⟨item, hitem, rfl⟩
    rw [horder] at hmem
    cases hmem
  have hentries : m.entries.entries = [] := List.eq_nil_of_length_eq_zero (Nat.le_zero.mp hsize)
  rw [h.bytes, total, Table.sum, Table.size, hentries]
  exact ⟨rfl, rfl⟩

end index

/-! ## The operations -/

section operations

variable {config : MemoryConfig} {m : MemoryState} {key : Bytes} {item : MemoryItem}

theorem Accounted.remove (h : m.Accounted config) (hitem : m.entries.lookup key = some item) :
    (m.remove key item config.eviction).Accounted config where
  toIndexed := (h.toIndexed.remove hitem).1
  maxBytes := Nat.le_trans (Nat.sub_le ..) h.maxBytes
  maxEntries := Nat.le_trans (Table.size_erase_le ..) h.maxEntries

/-- The size of an item is part of the count. -/
theorem Indexed.size_le {eviction : Eviction} (h : m.Indexed eviction)
    (hitem : m.entries.lookup key = some item) : item.size ≤ m.bytes := by
  have hsum := Table.sum_erase (fun _ item => item.size) hitem
  rw [h.bytes, total]
  omega

/-- A hit of an LRU tier takes the item out and puts it in again. -/
theorem Indexed.touch (h : m.Indexed .lru) (hitem : m.entries.lookup key = some item)
    (hsequence : m.sequence + 1 < 2 ^ 64) :
    ({ m with
      entries := m.entries.insert key { item with accessed := saturatingAdd m.sequence 1 }
      order := orderInsert (saturatingAdd m.sequence 1, key) (m.order.erase (item.accessed, key))
      sequence := saturatingAdd m.sequence 1 } : MemoryState) =
      { entries := (m.remove key item .lru).entries.insert key
          { item with accessed := m.sequence + 1 }
        order := (m.remove key item .lru).order ++ [(m.sequence + 1, key)]
        bytes := (m.remove key item .lru).bytes + item.size
        sequence := m.sequence + 1 } := by
  have horder : ∀ x ∈ m.order.erase (item.accessed, key), x.1 < m.sequence + 1 := fun x hx =>
    Nat.lt_succ_of_le (h.bounded x (List.mem_of_mem_erase hx))
  have hentries : (m.entries.erase key).insert key { item with accessed := m.sequence + 1 } =
      m.entries.insert key { item with accessed := m.sequence + 1 } := Table.insert_erase ..
  have hbytes : m.bytes - item.size + item.size = m.bytes := Nat.sub_add_cancel (h.size_le hitem)
  rw [sequence_next hsequence, orderInsert_last horder]
  unfold MemoryState.remove
  rw [hentries, hbytes]
  rfl

theorem get_lru (m : MemoryState) {now : UInt64} (hitem : m.entries.lookup key = some item)
    (hexpired : isExpired item.entry now = false) :
    m.get key now .lru = (.hit item.entry, { m with
      entries := m.entries.insert key { item with accessed := saturatingAdd m.sequence 1 }
      order := orderInsert (saturatingAdd m.sequence 1, key) (m.order.erase (item.accessed, key))
      sequence := saturatingAdd m.sequence 1 }) := by
  simp only [MemoryState.get, hitem, hexpired, Bool.false_eq_true, if_false]

/-- The queue after a lookup. -/
def lookedUp (config : MemoryConfig) (m : MemoryState) (key : Bytes) :
    MemoryLookup → List Bytes
  | .hit _ => if config.eviction = .lru then m.queue.erase key ++ [key] else m.queue
  | .expired => m.queue.erase key
  | .miss => m.queue

theorem Accounted.get (h : m.Accounted config) (key : Bytes) (now : UInt64)
    (hsequence : m.sequence + 1 < 2 ^ 64) :
    (m.get key now config.eviction).2.Accounted config ∧
      (m.get key now config.eviction).2.sequence ≤ m.sequence + 1 ∧
      (m.get key now config.eviction).2.queue =
        m.lookedUp config key (m.get key now config.eviction).1 := by
  cases hitem : m.entries.lookup key with
  | none =>
    have hget : m.get key now config.eviction = (.miss, m) := by simp only [MemoryState.get, hitem]
    rw [hget]
    exact ⟨h, Nat.le_succ _, rfl⟩
  | some item =>
    by_cases hexpired : isExpired item.entry now = true
    · have hget : m.get key now config.eviction =
          (.expired, m.remove key item config.eviction) := by
        simp only [MemoryState.get, hitem, hexpired, if_true]
      rw [hget]
      exact ⟨h.remove hitem, Nat.le_succ _, (h.toIndexed.remove hitem).2⟩
    · cases heviction : config.eviction with
      | fifo =>
        have hget : m.get key now .fifo = (.hit item.entry, m) := by
          simp only [MemoryState.get, hitem, hexpired, Bool.false_eq_true, if_false]
        rw [hget, lookedUp, heviction, if_neg (by decide)]
        exact ⟨h, Nat.le_succ _, rfl⟩
      | lru =>
        have hindexed : m.Indexed .lru := heviction ▸ h.toIndexed
        obtain ⟨hremove, hqueue⟩ := hindexed.remove hitem
        have hput := @Indexed.put .lru (m.remove key item .lru) hremove key
          { item with accessed := m.sequence + 1 } (AList.lookup_erase _ _) rfl
        have hget := m.get_lru hitem (Bool.eq_false_iff.mpr hexpired)
        rw [hindexed.touch hitem hsequence] at hget
        rw [hget]
        refine ⟨⟨heviction ▸ hput, ?_, ?_⟩, Nat.le_refl _, ?_⟩
        · have hbytes : m.bytes - item.size + item.size = m.bytes :=
            Nat.sub_add_cancel (hindexed.size_le hitem)
          show m.bytes - item.size + item.size ≤ _
          rw [hbytes]
          exact h.maxBytes
        · show Table.size ((m.entries.erase key).insert key _) ≤ _
          rw [Table.insert_erase, Table.size_insert_known hitem]
          exact h.maxEntries
        · rw [lookedUp, heviction, if_pos rfl, ← hqueue]
          show (((m.remove key item .lru).order ++ [(m.sequence + 1, key)]).map Prod.snd) = _
          rw [List.map_append]
          rfl

/-! ## Eviction -/

/-- One victim leaves. -/
theorem Indexed.evict_head {eviction : Eviction} {number : Nat} {victim : Bytes}
    {order : List (Nat × Bytes)}
    (h : ({ m with order := (number, victim) :: order } : MemoryState).Indexed eviction) :
    ∃ item, m.entries.lookup victim = some item ∧
      ({ m with
        entries := m.entries.erase victim
        bytes := m.bytes - item.size
        order := order } : MemoryState).Indexed eviction := by
  obtain ⟨item, hitem, hnumber⟩ := (h.index number victim).mp List.mem_cons_self
  have hremove := (h.remove hitem).1
  unfold MemoryState.remove at hremove
  rw [hnumber, List.erase_cons_head] at hremove
  exact ⟨item, hitem, hremove⟩

/-- **Run lemma** for the loop: victims are taken from the front until the limits are met. -/
theorem evict_spec {order : List (Nat × Bytes)}
    (h : ({ m with order := order } : MemoryState).Indexed config.eviction) (evicted : Nat) :
    (m.evict config evicted order).2.Accounted config ∧
      (m.evict config evicted order).2.sequence = m.sequence ∧
      ∃ victims, victims ++ (m.evict config evicted order).2.order = order ∧
        (m.evict config evicted order).1 = evicted + victims.length := by
  induction order generalizing m evicted with
  | nil =>
    obtain ⟨hbytes, hsize⟩ := h.of_nil rfl
    exact ⟨⟨h, hbytes ▸ Nat.zero_le _, hsize ▸ Nat.zero_le _⟩, rfl, [], rfl, rfl⟩
  | cons head order ih =>
    obtain ⟨number, victim⟩ := head
    rw [evict]
    split
    · obtain ⟨item, hitem, hrest⟩ := h.evict_head
      rw [hitem]
      obtain ⟨haccounted, hsequence, victims, hvictims, hcount⟩ :=
        @ih { m with entries := m.entries.erase victim, bytes := m.bytes - item.size } hrest
          (evicted + 1)
      refine ⟨haccounted, hsequence, (number, victim) :: victims, ?_, ?_⟩
      · rw [List.cons_append, hvictims]
      · rw [hcount, List.length_cons, Nat.add_assoc, Nat.add_comm 1]
    · next hlimits =>
      simp only [Bool.or_eq_true, decide_eq_true_eq, not_or, Nat.not_lt] at hlimits
      exact ⟨⟨h, hlimits.1, hlimits.2⟩, rfl, [], rfl, rfl⟩

/-- The last item of the index is not taken if it fits alone. -/
theorem evict_last {order : List (Nat × Bytes)} {number : Nat}
    (h : ({ m with order := order ++ [(number, key)] } : MemoryState).Indexed config.eviction)
    (hitem : m.entries.lookup key = some item) (hsize : item.size ≤ config.maxBytes)
    (hentries : 1 ≤ config.maxEntries) (evicted : Nat) :
    (number, key) ∈ (m.evict config evicted (order ++ [(number, key)])).2.order := by
  induction order generalizing m evicted with
  | nil =>
    obtain ⟨found, hfound, hrest⟩ := h.evict_head
    obtain rfl : item = found := Option.some.inj (hitem.symm.trans hfound)
    obtain ⟨hbytes, hcount⟩ := hrest.of_nil rfl
    have hwithin : (decide (config.maxBytes < m.bytes) ||
        decide (config.maxEntries < m.entries.size)) = false := by
      have hmem := Table.size_erase_of_mem (AList.mem_keys.mpr (Table.mem_keys_of_lookup hitem))
      simp only [Bool.or_eq_false_iff, decide_eq_false_iff_not]
      dsimp only at hbytes hcount
      omega
    rw [List.nil_append, evict, hwithin, if_neg Bool.false_ne_true]
    exact List.mem_singleton_self _
  | cons head order ih =>
    obtain ⟨first, victim⟩ := head
    rw [List.cons_append] at h ⊢
    rw [evict]
    split
    · obtain ⟨found, hfound, hrest⟩ := h.evict_head
      rw [hfound]
      refine @ih { m with entries := m.entries.erase victim, bytes := m.bytes - found.size }
        hrest ?_ (evicted + 1)
      have hne : key ≠ victim := by
        rintro rfl
        have hnodup := h.nodup_queue
        simp [queue] at hnodup
      exact (AList.lookup_erase_ne hne).trans hitem
    · exact List.mem_cons_of_mem _ (List.mem_append_right _ (List.mem_singleton_self _))

/-! ## Insertion -/

/-- The objects that `insert` does not take. -/
def refuses (config : MemoryConfig) (size : Nat) : Bool :=
  config.maxBytes < size || config.maxBytes == 0 || config.maxEntries == 0

/-- The new item is in the map and in the index, before anything is evicted. -/
def stored (m : MemoryState) (key : Bytes) (entry : CacheEntry) (size : Nat) : MemoryState :=
  { entries := m.entries.insert key
      ⟨entry, size, saturatingAdd m.sequence 1, saturatingAdd m.sequence 1⟩
    order := orderInsert (saturatingAdd m.sequence 1, key) m.order
    bytes := saturatingAdd m.bytes size
    sequence := saturatingAdd m.sequence 1 }

/-- The previous item under the key is taken out first. -/
theorem Accounted.replaced (h : m.Accounted config) (key : Bytes) :
    ∃ base : MemoryState, base.Indexed config.eviction ∧ base.entries.lookup key = none ∧
      base.queue = m.queue.erase key ∧ base.sequence = m.sequence ∧ base.bytes ≤ config.maxBytes ∧
      ∀ entry size, refuses config size = false → m.insert key entry size config =
        (base.stored key entry size).evict config 0 (base.stored key entry size).order := by
  cases hlookup : m.entries.lookup key with
  | none =>
    refine ⟨m, h.toIndexed, hlookup, ?_, rfl, h.maxBytes, fun entry size haccepted => ?_⟩
    · have hmem : key ∉ m.queue := by simp [h.toIndexed.mem_queue, hlookup]
      exact (List.erase_of_not_mem hmem).symm
    · refine (if_neg (Bool.eq_false_iff.mp haccepted)).trans ?_
      dsimp only
      rw [hlookup]
      rfl
  | some previous =>
    obtain ⟨hremove, hqueue⟩ := h.toIndexed.remove hlookup
    refine ⟨m.remove key previous config.eviction, hremove, AList.lookup_erase _ _, hqueue, rfl,
      Nat.le_trans (Nat.sub_le ..) h.maxBytes, fun entry size haccepted => ?_⟩
    refine (if_neg (Bool.eq_false_iff.mp haccepted)).trans ?_
    dsimp only
    rw [hlookup]
    rfl

/-- Where nothing saturates, the new item is the last of the index. -/
theorem Indexed.stored (h : m.Indexed config.eviction) (hnone : m.entries.lookup key = none)
    (entry : CacheEntry) {size : Nat} (hsequence : m.sequence + 1 < 2 ^ 64)
    (hbytes : m.bytes + size < 2 ^ 64) :
    (m.stored key entry size).Indexed config.eviction ∧
      (m.stored key entry size).order = m.order ++ [(m.sequence + 1, key)] := by
  have horder : orderInsert (m.sequence + 1, key) m.order = m.order ++ [(m.sequence + 1, key)] :=
    orderInsert_last fun x hx => Nat.lt_succ_of_le (h.bounded x hx)
  have hadd : saturatingAdd m.bytes size = m.bytes + size := by
    unfold saturatingAdd
    omega
  have hnumber : ∀ eviction, (⟨entry, size, m.sequence + 1, m.sequence + 1⟩ : MemoryItem).sequence
      eviction = m.sequence + 1 := by
    intro eviction
    cases eviction <;> rfl
  unfold MemoryState.stored
  rw [sequence_next hsequence, hadd, horder]
  exact ⟨h.put hnone (hnumber _), rfl⟩

theorem Accounted.insert (h : m.Accounted config) (hvalid : config.maxBytes < 2 ^ 63) (key : Bytes)
    (entry : CacheEntry) {size : Nat} (hsequence : m.sequence + 1 < 2 ^ 64)
    (haccepted : refuses config size = false) :
    (m.insert key entry size config).2.Accounted config ∧
      (m.insert key entry size config).2.sequence = m.sequence + 1 ∧
      key ∈ (m.insert key entry size config).2.queue ∧
      ∃ victims, victims ++ (m.insert key entry size config).2.queue = m.queue.erase key ++ [key] ∧
        (m.insert key entry size config).1 = victims.length := by
  obtain ⟨base, hindexed, hnone, hqueue, hbaseSequence, hbytes, hinsert⟩ := h.replaced key
  have hlimits := haccepted
  simp only [refuses, Bool.or_eq_false_iff, decide_eq_false_iff_not, beq_eq_false_iff_ne] at hlimits
  obtain ⟨hstored, horder⟩ := hindexed.stored hnone entry (hbaseSequence ▸ hsequence)
    (show base.bytes + size < 2 ^ 64 by omega)
  rw [hinsert entry size haccepted]
  obtain ⟨haccounted, hkept, victims, hvictims, hcount⟩ := @evict_spec config
    (base.stored key entry size) (base.stored key entry size).order hstored 0
  have hitem : (base.stored key entry size).entries.lookup key =
      some ⟨entry, size, saturatingAdd base.sequence 1, saturatingAdd base.sequence 1⟩ :=
    AList.lookup_insert _
  have hlast : (base.sequence + 1, key) ∈
      ((base.stored key entry size).evict config 0 (base.stored key entry size).order).2.order := by
    have hlater : ({ base.stored key entry size with
        order := base.order ++ [(base.sequence + 1, key)] } : MemoryState).Indexed
          config.eviction := by
      rw [← horder]
      exact hstored
    rw [horder]
    exact evict_last hlater hitem (Nat.le_of_not_lt hlimits.1.1) (Nat.pos_of_ne_zero hlimits.2) 0
  refine ⟨haccounted, ?_, List.mem_map_of_mem hlast, victims.map Prod.snd, ?_, ?_⟩
  · rw [hkept, ← hbaseSequence]
    exact sequence_next (hbaseSequence ▸ hsequence)
  · have hmap : (base.stored key entry size).order.map Prod.snd = m.queue.erase key ++ [key] := by
      rw [horder, ← hqueue]
      exact List.map_append
    rw [← hmap, queue, ← List.map_append, hvictims]
  · rw [hcount, List.length_map, Nat.zero_add]

theorem accounted_clear (m : MemoryState) : m.clear.Accounted config where
  index := by
    intro number key
    show (number, key) ∈ [] ↔ ∃ item, (∅ : Table Bytes MemoryItem).lookup key = some item ∧ _
    simp
  ordered := List.Pairwise.nil
  bounded := by
    intro x hx
    cases hx
  bytes := rfl
  maxBytes := Nat.zero_le _
  maxEntries := Nat.zero_le _

end operations

/-! ## Runs -/

section runs

variable {config : MemoryConfig}

/-- What an operation does to the queue. -/
def Queued (config : MemoryConfig) (m : MemoryState) (queue : List Bytes) : Op → Prop
  | .get key now => queue = m.lookedUp config key (m.get key now config.eviction).1
  | .insert key entry size =>
    if refuses config size then queue = m.queue ∧ (m.insert key entry size config).1 = 0
    else key ∈ queue ∧ ∃ victims, victims ++ queue = m.queue.erase key ++ [key] ∧
      (m.insert key entry size config).1 = victims.length
  | .clear => queue = []

/-- **Step lemma.** -/
theorem Accounted.apply {m : MemoryState} (h : m.Accounted config)
    (hvalid : config.maxBytes < 2 ^ 63) (hsequence : m.sequence + 1 < 2 ^ 64) (op : Op) :
    (m.apply config op).Accounted config ∧ (m.apply config op).sequence ≤ m.sequence + 1 ∧
      m.Queued config (m.apply config op).queue op := by
  cases op with
  | get key now => exact h.get key now hsequence
  | insert key entry size =>
    cases hrefuses : refuses config size with
    | true =>
      have hsame : m.insert key entry size config = (0, m) := if_pos hrefuses
      show (m.insert key entry size config).2.Accounted config ∧
        (m.insert key entry size config).2.sequence ≤ _ ∧
        m.Queued config (m.insert key entry size config).2.queue (.insert key entry size)
      rw [Queued, hsame, hrefuses, if_pos rfl]
      exact ⟨h, Nat.le_succ _, rfl, rfl⟩
    | false =>
      obtain ⟨haccounted, hnext, hkept, hvictims⟩ := h.insert hvalid key entry hsequence hrefuses
      refine ⟨haccounted, Nat.le_of_eq hnext, ?_⟩
      rw [Queued, hrefuses, if_neg Bool.false_ne_true]
      exact ⟨hkept, hvictims⟩
  | clear => exact ⟨accounted_clear m, Nat.le_succ _, rfl⟩

theorem run_snoc (ops : List Op) (op : Op) :
    run config (ops ++ [op]) = (run config ops).apply config op :=
  List.foldl_concat ..

/-- **Run lemma.** -/
theorem accounted_run (hvalid : config.maxBytes < 2 ^ 63) {ops : List Op}
    (hops : ops.length < 2 ^ 64) :
    (run config ops).Accounted config ∧ (run config ops).sequence ≤ ops.length := by
  induction ops using List.reverseRecOn with
  | nil => exact ⟨accounted_clear empty, Nat.le_refl 0⟩
  | append_singleton ops op ih =>
    rw [List.length_append, List.length_singleton] at hops ⊢
    obtain ⟨haccounted, hsequence⟩ := ih (by omega)
    obtain ⟨hnext, hsequence', -⟩ := haccounted.apply hvalid (by omega) op
    rw [run_snoc]
    exact ⟨hnext, Nat.le_trans hsequence' (Nat.succ_le_succ hsequence)⟩

/-- **Accounting of the memory tier.** After every sequence of less than `2 ^ 64` operations, with
    a limit that passes the validation, the index holds each item under the number of its last
    access or of its insertion and nothing else, the count is the sum of the sizes, and both are
    within the limits. The last operation has moved the queue: an insertion evicts as many keys
    from its front as it says and keeps the key that was inserted. -/
theorem memory_accounting (config : MemoryConfig) (hvalid : config.maxBytes < 2 ^ 63)
    (ops : List Op) (hops : ops.length < 2 ^ 64) :
    (run config ops).Accounted config ∧
      ∀ before op, ops = before ++ [op] →
        (run config before).Queued config (run config ops).queue op := by
  refine ⟨(accounted_run hvalid hops).1, ?_⟩
  rintro before op rfl
  rw [List.length_append, List.length_singleton] at hops
  obtain ⟨haccounted, hsequence⟩ := accounted_run hvalid (show before.length < 2 ^ 64 by omega)
  have hqueued := (haccounted.apply hvalid (by omega) op).2.2
  rw [run_snoc]
  exact hqueued

end runs

/-! ## A run -/

namespace Sample

def config : MemoryConfig := ⟨100, 2, .lru⟩

def entry : CacheEntry := ⟨[], [], 200, 0, 1000, 0, none⟩

/-- Two insertions, a hit of the first and a third insertion. -/
def ops : List Op :=
  [.insert [97] entry 40, .insert [98] entry 40, .get [97] 0, .insert [99] entry 40]

/-- The second one is the victim. -/
theorem memory_accounting_lru : (run config ops).Accounted config ∧
    (run config ops).queue = [[97], [99]] :=
  ⟨(memory_accounting config (by decide) ops (by decide)).1, by decide +kernel⟩

end Sample

end MemoryState

end Cache
