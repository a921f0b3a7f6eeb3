import Hangang.Framework.Bytes
import Hangang.Framework.Threads

/-! # Epochs of Docker Endpoints

    `discovery`: refreshes resolve the Docker references of a configuration and publish one
    complete map, in a read-copy-update loop; resolutions read the map that is current. Every
    entry has an epoch, which is taken over when the entry has not changed, and is else taken from
    a counter.

    * **The threads**: refreshes with their publications, and resolutions, between which the
      daemon's generation changes.
    * **The chain**: what each committed snapshot adds to all that were committed before.
    * **Epochs** of one reference, over the whole chain. -/

open Bytes

namespace Discovery

structure Resolved where
  httpBackend : Bytes
  tcpBackend : Bytes
  identity : Option Bytes
  deriving DecidableEq

inductive Protocol where
  | http
  | tcp
  deriving DecidableEq

def Resolved.address (r : Resolved) : Protocol → Bytes
  | .http => r.httpBackend
  | .tcp => r.tcpBackend

structure Entry where
  name : Bytes
  value : Resolved
  epoch : Nat
  deriving DecidableEq

/-- `ResolvedSnapshot`: its maps `values` and `epochs` have the same keys. -/
structure Snapshot where
  /-- The allocation, which distinguishes the snapshots that anybody can hold. -/
  serial : Nat
  generation : Nat
  entries : List Entry
  deriving DecidableEq

def Snapshot.get (snapshot : Snapshot) (name : Bytes) : Option Entry :=
  snapshot.entries.find? (·.name = name)

structure Shared where
  /-- The generation of the managed daemon, if there is one. -/
  managed : Option Nat
  /-- How many epochs were taken from `NEXT_EPOCH`, which starts with 1. -/
  taken : Nat
  current : Snapshot
  /-- The snapshots that were committed before, the last one first. -/
  older : List Snapshot

def Shared.history (s : Shared) : List Snapshot := s.current :: s.older

/-- The value of `NEXT_EPOCH`, which wraps around. -/
def Shared.nextEpoch (s : Shared) : Nat := (s.taken + 1) % 2 ^ 64

def initial (managed : Option Nat) : Shared := ⟨managed, 0, ⟨0, 0, []⟩, []⟩

/-! ## The threads -/

inductive Job where
  | refresh
  | resolve (backend : Bytes) (protocol : Protocol)
  deriving DecidableEq

/-- A map that is published, with the generation it belongs to. -/
structure Publication where
  generation : Nat
  next : List (Bytes × Resolved)
  deriving DecidableEq

structure Target where
  endpoint : Bytes
  epoch : Nat
  deriving DecidableEq

inductive Answer where
  | unresolved
  /-- A backend that is no Docker reference. -/
  | static (target : Target)
  /-- The target, the snapshot it comes from and the generation at the last check. -/
  | resolved (target : Target) (snapshot : Snapshot) (generation : Option Nat)
  deriving DecidableEq

inductive Phase where
  | starting
  /-- The references are inspected. -/
  | inspecting (generation : Nat)
  | publishing (publication : Publication)
  /-- The closure of `rcu` goes over the map. -/
  | mapping (publication : Publication) (previous : Snapshot) (todo : List (Bytes × Resolved))
      (entries : List Entry)
  /-- The exchange for the new entries, or for the previous snapshot itself. -/
  | exchanging (publication : Publication) (previous : Snapshot) (entries : Option (List Entry))
  | published
  | reading (generation : Option Nat)
  | loaded (generation : Option Nat) (snapshot : Snapshot)
  | answered (answer : Answer)
  deriving DecidableEq

structure Thread where
  job : Job
  phase : Phase
  deriving DecidableEq

inductive Choice where
  | go
  /-- The inspections end: with a map, or without one, when they take too long or there is
      nothing to inspect. -/
  | collected (next : Option (List (Bytes × Resolved)))

inductive Env where
  /-- The connection to the daemon changes. -/
  | generation (generation : Nat)
  /-- Other users of the counter take epochs. -/
  | take (count : Nat)

def beginPublish (publication : Publication) (previous : Snapshot) : Phase :=
  if publication.generation < previous.generation then .exchanging publication previous none
  else .mapping publication previous publication.next []

/-- The epoch that an entry keeps. -/
def retained (generation : Nat) (previous : Snapshot) (name : Bytes) (value : Resolved) :
    Option Nat :=
  if previous.generation = generation ∧ value.identity.isSome then
    ((previous.get name).filter (·.value = value)).map Entry.epoch
  else none

variable (s : Shared)

/-- One entry of the map. -/
def mapEntry (publication : Publication) (previous : Snapshot) (item : Bytes × Resolved)
    (todo : List (Bytes × Resolved)) (entries : List Entry) : Shared × Phase :=
  match retained publication.generation previous item.1 item.2 with
  | some epoch =>
    (s, .mapping publication previous todo (entries ++ [⟨item.1, item.2, epoch⟩]))
  | none =>
    ({ s with taken := s.taken + 1 },
      .mapping publication previous todo (entries ++ [⟨item.1, item.2, s.nextEpoch⟩]))

def exchange (publication : Publication) (previous : Snapshot) (entries : Option (List Entry)) :
    Shared × Phase :=
  if s.current.serial = previous.serial then
    match entries with
    | none => (s, .published)
    | some entries =>
      ({ s with
        current := ⟨s.current.serial + 1, publication.generation, entries⟩
        older := s.current :: s.older }, .published)
  else (s, beginPublish publication s.current)

def begin (job : Job) : Phase :=
  match job with
  | .refresh => .inspecting (s.managed.getD 0)
  | .resolve backend _ =>
    if (ascii "docker://").isPrefixOf backend then .reading s.managed
    else .answered (.static ⟨backend, 0⟩)

def collect (generation : Nat) (next : Option (List (Bytes × Resolved))) : Phase :=
  match next with
  | none => .publishing ⟨generation, []⟩
  | some next =>
    .publishing ⟨generation, if s.managed.any (· ≠ generation) then [] else next⟩

def load (generation : Option Nat) : Phase :=
  if generation.any (· ≠ s.current.generation) then .answered .unresolved
  else .loaded generation s.current

def answer (generation : Option Nat) (snapshot : Snapshot) (backend : Bytes)
    (protocol : Protocol) : Phase :=
  match snapshot.get backend with
  | none => .answered .unresolved
  | some entry =>
    if generation.any fun generation => s.managed.any (· ≠ generation) then .answered .unresolved
    else .answered (.resolved ⟨entry.value.address protocol, entry.epoch⟩ snapshot s.managed)

def advance (th : Thread) (choice : Choice) : Option (Shared × Phase) :=
  match th.phase, choice with
  | .starting, .go => some (s, begin s th.job)
  | .inspecting generation, .collected next => some (s, collect s generation next)
  | .publishing publication, .go => some (s, beginPublish publication s.current)
  | .mapping publication previous [] entries, .go =>
    some (s, .exchanging publication previous (some entries))
  | .mapping publication previous (item :: todo) entries, .go =>
    some (mapEntry s publication previous item todo entries)
  | .exchanging publication previous entries, .go =>
    some (exchange s publication previous entries)
  | .reading generation, .go => some (s, load s generation)
  | .loaded generation snapshot, .go =>
    match th.job with
    | .resolve backend protocol => some (s, answer s generation snapshot backend protocol)
    | .refresh => none
  | _, _ => none

def tick : Env → Option Shared
  | .generation generation => s.managed.map fun _ => { s with managed := some generation }
  | .take count => some { s with taken := s.taken + count }

def program : Program Shared Thread Job Choice Env where
  start job := some ⟨job, .starting⟩
  advance _ s th choice := (advance s th choice).map fun next => (next.1, ⟨th.job, next.2⟩)
  tick := tick

/-- `NEXT_EPOCH` has not wrapped around. -/
def Unwrapped (s : Shared) (_ : Thread) : Bool := s.taken + 1 < 2 ^ 64

/-! ## The chain of snapshots -/

/-- The entry is the previous one, of a known identity. -/
def Kept (generation : Nat) (previous : Snapshot) (e : Entry) : Prop :=
  previous.generation = generation ∧ e.value.identity.isSome = true ∧ previous.get e.name = some e

/-- The epoch is new to these snapshots. -/
def Fresh (older : List Snapshot) (e : Entry) : Prop :=
  ∀ snapshot ∈ older, ∀ e' ∈ snapshot.entries, e'.epoch < e.epoch

/-- What each snapshot adds to those before it. -/
def Linked : List Snapshot → Prop
  | [] => True
  | new :: older =>
    (∀ e ∈ new.entries,
      (∃ previous rest, older = previous :: rest ∧ Kept new.generation previous e) ∨
        Fresh older e) ∧
    (∀ snapshot ∈ older, snapshot.serial < new.serial ∧ snapshot.generation ≤ new.generation) ∧
    Linked older

theorem get_name {snapshot : Snapshot} {name : Bytes} {e : Entry} (h : snapshot.get name = some e) :
    e ∈ snapshot.entries ∧ e.name = name := by
  have hname := List.find?_some h
  exact ⟨List.mem_of_find?_eq_some h, by simpa using hname⟩

variable {chain : List Snapshot} {a b : Snapshot} {name : Bytes} {e e' : Entry}

theorem Linked.serial_inj (h : Linked chain) (ha : a ∈ chain) (hb : b ∈ chain)
    (heq : a.serial = b.serial) : a = b := by
  induction chain with
  | nil => exact absurd ha List.not_mem_nil
  | cons new older ih =>
    obtain ⟨-, hserial, holder⟩ := h
    rcases List.mem_cons.mp ha with rfl | ha'
    · rcases List.mem_cons.mp hb with rfl | hb'
      · rfl
      · have := (hserial b hb').1
        omega
    · rcases List.mem_cons.mp hb with rfl | hb'
      · have := (hserial a ha').1
        omega
      · exact ih holder ha' hb'

theorem Linked.generation_le (h : Linked chain) (ha : a ∈ chain) (hb : b ∈ chain)
    (hle : a.serial ≤ b.serial) : a.generation ≤ b.generation := by
  induction chain with
  | nil => exact absurd ha List.not_mem_nil
  | cons new older ih =>
    obtain ⟨-, hserial, holder⟩ := h
    rcases List.mem_cons.mp hb with rfl | hb'
    · rcases List.mem_cons.mp ha with rfl | ha'
      · exact Nat.le_refl _
      · exact (hserial a ha').2
    · rcases List.mem_cons.mp ha with rfl | ha'
      · have := (hserial b hb').1
        omega
      · exact ih holder ha' hb'

theorem linked_of_append {newer older : List Snapshot} (h : Linked (newer ++ older)) :
    Linked older := by
  induction newer with
  | nil => exact h
  | cons new newer ih => exact ih h.2.2

/-- **Epochs of a reference** do not decrease; while they are equal, the reference stays in the
    chain, and is not changed. -/
theorem Linked.epochs (h : Linked chain) (ha : a ∈ chain) (hb : b ∈ chain)
    (hle : a.serial ≤ b.serial) (he : a.get name = some e) (he' : b.get name = some e') :
    e.epoch ≤ e'.epoch ∧ (e.epoch = e'.epoch → e = e' ∧ ∀ m ∈ chain, a.serial ≤ m.serial →
      m.serial ≤ b.serial → m.get name = some e) := by
  induction chain generalizing b with
  | nil => exact absurd ha List.not_mem_nil
  | cons new older ih =>
    obtain ⟨hentries, hserial, holder⟩ := h
    rcases List.mem_cons.mp hb with rfl | hb'
    · rcases List.mem_cons.mp ha with rfl | ha'
      · obtain rfl := Option.some.inj (he.symm.trans he')
        refine ⟨Nat.le_refl _, fun _ => ⟨rfl, fun m hm hlow _ => ?_⟩⟩
        rcases List.mem_cons.mp hm with rfl | hm'
        · exact he
        · have := (hserial m hm').1
          omega
      · obtain ⟨hmem, rfl⟩ := get_name he'
        rcases hentries e' hmem with ⟨previous, rest, rfl, -, -, hkept⟩ | hfresh
        · -- the entry was taken over from the predecessor, which is the newest of the others
          have hlow : a.serial ≤ previous.serial := by
            rcases List.mem_cons.mp ha' with rfl | ha''
            · exact Nat.le_refl _
            · exact (holder.2.1 a ha'').1.le
          obtain ⟨hle', heq⟩ := ih holder ha' List.mem_cons_self hlow hkept
          refine ⟨hle', fun hepoch => ?_⟩
          obtain ⟨rfl, hbetween⟩ := heq hepoch
          refine ⟨rfl, fun m hm hlow _ => ?_⟩
          rcases List.mem_cons.mp hm with rfl | hm'
          · exact he'
          · apply hbetween m hm' hlow
            rcases List.mem_cons.mp hm' with rfl | hm''
            · exact Nat.le_refl _
            · exact (holder.2.1 m hm'').1.le
        · have hlt := hfresh a ha' e (get_name he).1
          exact ⟨hlt.le, fun heq => absurd heq hlt.ne⟩
    · rcases List.mem_cons.mp ha with rfl | ha'
      · have := (hserial b hb').1
        omega
      · obtain ⟨hle', heq⟩ := ih holder ha' hb' hle he'
        refine ⟨hle', fun hepoch => ?_⟩
        obtain ⟨hsame, hbetween⟩ := heq hepoch
        refine ⟨hsame, fun m hm hlow hhigh => ?_⟩
        rcases List.mem_cons.mp hm with rfl | hm'
        · have := (hserial b hb').1
          omega
        · exact hbetween m hm' hlow hhigh

/-! ## Assertions -/

structure Glob (s : Shared) : Prop where
  linked : Linked s.history
  taken : ∀ snapshot ∈ s.history, ∀ e ∈ snapshot.entries, e.epoch ≤ s.taken

/-- What the loop knows of the entries it has made for `previous`: the others were allocated
    after `previous` was read. -/
def Mapped (s : Shared) (publication : Publication) (previous : Snapshot) (entries : List Entry) :
    Prop :=
  previous ∈ s.history ∧ previous.generation ≤ publication.generation ∧
    ∀ e ∈ entries, e.epoch ≤ s.taken ∧ (Kept publication.generation previous e ∨
      ∀ snapshot ∈ s.history, snapshot.serial ≤ previous.serial →
        ∀ e' ∈ snapshot.entries, e'.epoch < e.epoch)

/-- What a resolution has found. -/
structure Found (s : Shared) (backend : Bytes) (protocol : Protocol) (target : Target)
    (snapshot : Snapshot) (generation : Option Nat) : Prop where
  mem : snapshot ∈ s.history
  entry : ∃ e, snapshot.get backend = some e ∧ target = ⟨e.value.address protocol, e.epoch⟩
  generation : ∀ g, generation = some g → snapshot.generation = g

def Ok (s : Shared) (th : Thread) : Prop :=
  match th.phase with
  | .mapping publication previous _ entries => Mapped s publication previous entries
  | .exchanging publication previous (some entries) => Mapped s publication previous entries
  | .reading generation => generation.isSome = s.managed.isSome
  | .loaded generation snapshot => snapshot ∈ s.history ∧ generation.isSome = s.managed.isSome ∧
      ∀ g, generation = some g → snapshot.generation = g
  | .answered (.resolved target snapshot generation) =>
    ∀ backend protocol, th.job = .resolve backend protocol →
      Found s backend protocol target snapshot generation
  | _ => True

/-- How the shared state goes on. -/
structure Grows (s s' : Shared) : Prop where
  managed : s'.managed.isSome = s.managed.isSome
  taken : s.taken ≤ s'.taken
  history : s.history <:+ s'.history
  newer : ∀ snapshot ∈ s'.history, snapshot ∈ s.history ∨ s.current.serial < snapshot.serial

theorem Grows.refl (s : Shared) : Grows s s :=
  ⟨rfl, Nat.le_refl _, List.suffix_refl _, fun _ h => .inl h⟩

variable {s s' : Shared}

theorem Glob.serial_le (h : Glob s) (ha : a ∈ s.history) : a.serial ≤ s.current.serial := by
  rcases List.mem_cons.mp ha with rfl | ha
  · exact Nat.le_refl _
  · exact (h.linked.2.1 a ha).1.le

theorem Mapped.grows {publication : Publication} {previous : Snapshot} {entries : List Entry}
    (h : Mapped s publication previous entries) (hs : Glob s) (hgrows : Grows s s') :
    Mapped s' publication previous entries := by
  obtain ⟨hprevious, hgeneration, hentries⟩ := h
  refine ⟨hgrows.history.subset hprevious, hgeneration, fun e he => ?_⟩
  obtain ⟨htaken, hcases⟩ := hentries e he
  refine ⟨htaken.trans hgrows.taken, hcases.imp id fun hnew snapshot hsnapshot hle => ?_⟩
  rcases hgrows.newer snapshot hsnapshot with hold | hlt
  · exact hnew snapshot hold hle
  · have := hs.serial_le hprevious
    omega

/-- **Non-interference.** -/
theorem Ok.grows {th : Thread} (h : Ok s th) (hs : Glob s) (hgrows : Grows s s') : Ok s' th := by
  unfold Ok at h ⊢
  split
  · next hphase => rw [hphase] at h; exact Mapped.grows h hs hgrows
  · next hphase => rw [hphase] at h; exact Mapped.grows h hs hgrows
  · next hphase => rw [hphase] at h; exact Eq.trans h hgrows.managed.symm
  · next hphase =>
    rw [hphase] at h
    exact ⟨hgrows.history.subset h.1, h.2.1.trans hgrows.managed.symm, h.2.2⟩
  · next hphase =>
    rw [hphase] at h
    intro backend protocol hjob
    have hfound := h backend protocol hjob
    exact ⟨hgrows.history.subset hfound.mem, hfound.entry, hfound.generation⟩
  · trivial

/-! ## Steps -/

/-- What is to be shown of a step. -/
structure Post (s : Shared) (job : Job) (next : Shared × Phase) : Prop where
  glob : Glob next.1
  ok : Ok next.1 ⟨job, next.2⟩
  grows : Grows s next.1

variable {job : Job} {publication : Publication} {previous : Snapshot}

theorem Post.same {phase : Phase} (hs : Glob s) (hok : Ok s ⟨job, phase⟩) :
    Post s job (s, phase) :=
  ⟨hs, hok, Grows.refl s⟩

theorem begin_post (hs : Glob s) : Post s job (s, begin s job) := by
  cases job with
  | refresh => exact Post.same hs trivial
  | resolve backend protocol =>
    unfold begin
    dsimp only
    split
    · exact Post.same hs rfl
    · exact Post.same hs trivial

theorem beginPublish_post (hs : Glob s) :
    Post s job (s, beginPublish publication s.current) := by
  unfold beginPublish
  split
  · exact Post.same hs trivial
  · next hlt =>
    exact Post.same hs ⟨List.mem_cons_self, Nat.not_lt.mp hlt, fun _ h => absurd h List.not_mem_nil⟩

theorem retained_eq_some {generation epoch : Nat} {value : Resolved}
    (h : retained generation previous name value = some epoch) :
    Kept generation previous ⟨name, value, epoch⟩ := by
  obtain ⟨⟨hgeneration, hidentity⟩, h⟩ := Option.ite_none_right_eq_some.mp h
  obtain ⟨e, he, rfl⟩ := Option.map_eq_some_iff.mp h
  obtain ⟨hget, hvalue⟩ := Option.filter_eq_some_iff.mp he
  obtain rfl : e.value = value := by simpa using hvalue
  obtain ⟨-, rfl⟩ := get_name hget
  exact ⟨hgeneration, hidentity, hget⟩

theorem mapEntry_post {item : Bytes × Resolved} {todo : List (Bytes × Resolved)}
    {entries : List Entry} (hs : Glob s) (hunwrapped : s.taken + 1 < 2 ^ 64)
    (h : Mapped s publication previous entries) :
    Post s job (mapEntry s publication previous item todo entries) := by
  unfold mapEntry
  split
  · next epoch hepoch =>
    have hkept := retained_eq_some hepoch
    refine Post.same hs ⟨h.1, h.2.1, fun e he => ?_⟩
    rcases List.mem_append.mp he with he | he
    · exact h.2.2 e he
    · obtain rfl := List.mem_singleton.mp he
      exact ⟨hs.taken previous h.1 _ (get_name hkept.2.2).1, .inl hkept⟩
  · have hgrows : Grows s { s with taken := s.taken + 1 } :=
      ⟨rfl, Nat.le_succ _, List.suffix_refl _, fun _ h => .inl h⟩
    have hmapped := h.grows hs hgrows
    refine ⟨⟨hs.linked, fun snapshot hsnapshot e he =>
      (hs.taken snapshot hsnapshot e he).trans (Nat.le_succ _)⟩, ?_, hgrows⟩
    refine ⟨hmapped.1, hmapped.2.1, fun e he => ?_⟩
    rcases List.mem_append.mp he with he | he
    · exact hmapped.2.2 e he
    · obtain rfl := List.mem_singleton.mp he
      have hepoch : s.nextEpoch = s.taken + 1 := Nat.mod_eq_of_lt hunwrapped
      refine ⟨hepoch.le, .inr fun snapshot hsnapshot _ e' he' => ?_⟩
      have := hs.taken snapshot hsnapshot e' he'
      show e'.epoch < s.nextEpoch
      omega

/-- **The commit**: when the exchange succeeds, the map was made for the current snapshot. -/
theorem commit_post {entries : List Entry} (hs : Glob s)
    (h : Mapped s publication previous entries) (hserial : s.current.serial = previous.serial) :
    Post s job ({ s with
      current := ⟨s.current.serial + 1, publication.generation, entries⟩
      older := s.current :: s.older }, .published) := by
  obtain ⟨hprevious, hgeneration, hentries⟩ := h
  obtain rfl := hs.linked.serial_inj List.mem_cons_self hprevious hserial
  refine ⟨⟨⟨fun e he => ?_, fun snapshot hsnapshot => ?_, hs.linked⟩, ?_⟩, trivial, rfl,
    Nat.le_refl _, List.suffix_cons _ _, ?_⟩
  · rcases (hentries e he).2 with hkept | hfresh
    · exact .inl ⟨s.current, s.older, rfl, hkept⟩
    · exact .inr fun snapshot hsnapshot => hfresh snapshot hsnapshot (hs.serial_le hsnapshot)
  · have hle := hs.serial_le hsnapshot
    exact ⟨Nat.lt_succ_of_le hle,
      (hs.linked.generation_le hsnapshot List.mem_cons_self hle).trans hgeneration⟩
  · intro snapshot hsnapshot e he
    rcases List.mem_cons.mp hsnapshot with rfl | hsnapshot
    · exact (hentries e he).1
    · exact hs.taken snapshot hsnapshot e he
  · intro snapshot hsnapshot
    rcases List.mem_cons.mp hsnapshot with rfl | hsnapshot
    · exact .inr (Nat.lt_succ_self _)
    · exact .inl hsnapshot

theorem exchange_post {entries : Option (List Entry)} (hs : Glob s)
    (h : Ok s ⟨job, .exchanging publication previous entries⟩) :
    Post s job (exchange s publication previous entries) := by
  unfold exchange
  split
  · next hserial =>
    cases entries with
    | none => exact Post.same hs trivial
    | some entries => exact commit_post hs h hserial
  · exact beginPublish_post hs

theorem load_post {generation : Option Nat} (hs : Glob s)
    (h : generation.isSome = s.managed.isSome) : Post s job (s, load s generation) := by
  unfold load
  split
  · exact Post.same hs trivial
  · next hsame =>
    refine Post.same hs ⟨List.mem_cons_self, h, ?_⟩
    rintro g rfl
    by_contra hne
    exact hsame (by simpa using Ne.symm hne)

theorem answer_post {generation : Option Nat} {snapshot : Snapshot} {backend : Bytes}
    {protocol : Protocol} (hs : Glob s) (hsnapshot : snapshot ∈ s.history)
    (hmanaged : generation.isSome = s.managed.isSome)
    (hgeneration : ∀ g, generation = some g → snapshot.generation = g) :
    Post s (.resolve backend protocol) (s, answer s generation snapshot backend protocol) := by
  unfold answer
  split
  · exact Post.same hs trivial
  · next e he =>
    split
    · exact Post.same hs trivial
    · next hsame =>
      refine Post.same hs fun backend' protocol' hjob => ⟨hsnapshot, ?_, fun g hg => ?_⟩
      · obtain ⟨rfl, rfl⟩ := Job.resolve.inj hjob
        exact ⟨e, he, rfl⟩
      · rw [hg, Option.isSome_some] at hmanaged
        obtain ⟨g', rfl⟩ := Option.isSome_iff_exists.mp hmanaged
        rw [hgeneration g' rfl]
        by_contra hne
        exact hsame (by simpa [hg] using Ne.symm hne)

theorem advance_post {th : Thread} {choice : Choice} {next : Shared × Phase} (hs : Glob s)
    (hunwrapped : s.taken + 1 < 2 ^ 64) (hok : Ok s th) (h : advance s th choice = some next) :
    Post s th.job next := by
  obtain ⟨job, phase⟩ := th
  unfold advance at h
  split at h
  · exact Option.some.inj h ▸ begin_post hs
  · next generation collected hphase =>
    rw [← Option.some.inj h]
    unfold collect
    split
    · exact Post.same hs trivial
    · exact Post.same hs trivial
  · exact Option.some.inj h ▸ beginPublish_post hs
  · next hphase =>
    obtain rfl : phase = _ := hphase
    exact Option.some.inj h ▸ Post.same hs hok
  · next hphase =>
    obtain rfl : phase = _ := hphase
    exact Option.some.inj h ▸ mapEntry_post hs hunwrapped hok
  · next hphase =>
    obtain rfl : phase = _ := hphase
    exact Option.some.inj h ▸ exchange_post hs hok
  · next hphase =>
    obtain rfl : phase = _ := hphase
    exact Option.some.inj h ▸ load_post hs hok
  · next hphase =>
    obtain rfl : phase = _ := hphase
    cases job with
    | refresh => simp at h
    | resolve backend protocol =>
      exact Option.some.inj h ▸ answer_post hs hok.1 hok.2.1 hok.2.2
  · simp at h

theorem tick_grows {env : Env} (h : tick s env = some s') :
    Grows s s' ∧ (Glob s → Glob s') := by
  cases env with
  | generation generation =>
    obtain ⟨g, hg, rfl⟩ := Option.map_eq_some_iff.mp h
    exact ⟨⟨by rw [hg]; rfl, Nat.le_refl _, List.suffix_refl _, fun _ h => .inl h⟩,
      fun hs => ⟨hs.linked, hs.taken⟩⟩
  | take count =>
    obtain rfl := Option.some.inj h
    exact ⟨⟨rfl, Nat.le_add_right _ _, List.suffix_refl _, fun _ h => .inl h⟩, fun hs =>
      ⟨hs.linked, fun snapshot hsnapshot e he =>
        (hs.taken snapshot hsnapshot e he).trans (Nat.le_add_right _ _)⟩⟩

def outline : program.Outline Unwrapped where
  Glob := Glob
  Ok _ s th := Ok s th
  start := by
    intro s job th tid _ h
    rw [← Option.some.inj h]
    trivial
  own := by
    intro tid s th choice s' th' hs hok hA h
    obtain ⟨next, hnext, heq⟩ := Option.map_eq_some_iff.mp h
    obtain ⟨rfl, rfl⟩ := Prod.mk.inj heq
    have hpost := advance_post hs (of_decide_eq_true hA) hok hnext
    exact ⟨hpost.glob, hpost.ok⟩
  interference := by
    intro tid i s th other choice s' th' _ hs hok hA hother h
    obtain ⟨next, hnext, heq⟩ := Option.map_eq_some_iff.mp h
    obtain ⟨rfl, rfl⟩ := Prod.mk.inj heq
    exact hother.grows hs (advance_post hs (of_decide_eq_true hA) hok hnext).grows
  tick := by
    intro s env s' hs h
    obtain ⟨hgrows, hglob⟩ := tick_grows h
    exact ⟨hglob hs, fun i th hok => hok.grows hs hgrows⟩

/-! ## Results -/

/-- **Epochs of endpoints**: in every run in which the counter does not wrap around
    - the epochs of a reference do not decrease from a committed snapshot to a later one,
    - an entry of a snapshot is the entry of its predecessor, of the same generation and a known
      identity, or has a greater epoch than all entries of the predecessor,
    - two resolutions of a reference with the same epoch come from the same entry, which was in
      every snapshot that was committed in between,
    - generations do not decrease from a committed snapshot to a later one,
    - and the snapshot a resolution answers from was committed; with a managed daemon it is of
      the generation that was current at the resolution's last check. -/
theorem endpoint_epochs {managed : Option Nat} {events : List (Event Job Choice Env)}
    {pool : Pool Shared Thread}
    (hrun : (program.under Unwrapped).run ⟨initial managed, []⟩ events = some pool) :
    (∀ (a b : Snapshot) (name : Bytes) (e e' : Entry), a ∈ pool.shared.history →
      b ∈ pool.shared.history → a.serial ≤ b.serial → a.get name = some e →
      b.get name = some e' → e.epoch ≤ e'.epoch) ∧
    (∀ (newer older : List Snapshot) (new previous : Snapshot),
      pool.shared.history = newer ++ new :: previous :: older → ∀ e ∈ new.entries,
      Kept new.generation previous e ∨ ∀ e' ∈ previous.entries, e'.epoch < e.epoch) ∧
    (∀ (tid tid' : Nat) (backend : Bytes) (protocol protocol' : Protocol) (target target' : Target)
      (a b : Snapshot) (g g' : Option Nat),
      pool.threads[tid]? = some ⟨.resolve backend protocol, .answered (.resolved target a g)⟩ →
      pool.threads[tid']? = some ⟨.resolve backend protocol', .answered (.resolved target' b g')⟩ →
      target.epoch = target'.epoch → a.serial ≤ b.serial →
      ∃ e, target = ⟨e.value.address protocol, e.epoch⟩ ∧
        target' = ⟨e.value.address protocol', e.epoch⟩ ∧
        ∀ m ∈ pool.shared.history, a.serial ≤ m.serial → m.serial ≤ b.serial →
          m.get backend = some e) ∧
    (∀ a b : Snapshot, a ∈ pool.shared.history → b ∈ pool.shared.history →
      a.serial ≤ b.serial → a.generation ≤ b.generation) ∧
    (∀ (tid : Nat) (backend : Bytes) (protocol : Protocol) (target : Target) (a : Snapshot)
      (g : Option Nat), pool.threads[tid]? =
        some ⟨.resolve backend protocol, .answered (.resolved target a g)⟩ →
      a ∈ pool.shared.history ∧ ∀ generation, g = some generation → a.generation = generation) := by
  have hinitial : Glob (initial managed) := by
    refine ⟨⟨fun e he => absurd he List.not_mem_nil, fun _ h => absurd h List.not_mem_nil,
      trivial⟩, fun snapshot hsnapshot e he => ?_⟩
    obtain rfl := List.mem_singleton.mp hsnapshot
    exact absurd he List.not_mem_nil
  have hholds := outline.holds_run (outline.holds_initial hinitial) hrun
  have hs : Glob pool.shared := hholds.glob
  -- what a finished resolution knows about the chain
  have hfound {tid : Nat} {backend : Bytes} {protocol : Protocol} {target : Target}
      {a : Snapshot} {g : Option Nat} (h : pool.threads[tid]? =
        some ⟨.resolve backend protocol, .answered (.resolved target a g)⟩) :
      Found pool.shared backend protocol target a g := hholds.ok tid _ h backend protocol rfl
  refine ⟨?_, ?_, ?_, ?_, ?_⟩
  · intro a b name e e' ha hb hle he he'
    exact (hs.linked.epochs ha hb hle he he').1
  -- the chain says this of a snapshot and its predecessor, wherever they stand in it
  · intro newer older new previous hhistory e he
    have hlinked : Linked (new :: previous :: older) := by
      have := hs.linked
      rw [hhistory] at this
      exact linked_of_append this
    rcases hlinked.1 e he with ⟨_, _, heq, hkept⟩ | hfresh
    · obtain ⟨rfl, -⟩ := List.cons.inj heq
      exact .inl hkept
    · exact .inr (hfresh previous List.mem_cons_self)
  -- equal epochs mean the same entry in all of the chain between the two snapshots
  · intro tid tid' backend protocol protocol' target target' a b g g' hth hth' hepoch hle
    obtain ⟨e, he, rfl⟩ := (hfound hth).entry
    obtain ⟨e', he', rfl⟩ := (hfound hth').entry
    obtain ⟨rfl, hbetween⟩ :=
      (hs.linked.epochs (hfound hth).mem (hfound hth').mem hle he he').2 hepoch
    exact ⟨e, rfl, rfl, hbetween⟩
  · intro a b ha hb hle
    exact hs.linked.generation_le ha hb hle
  · intro tid backend protocol target a g hth
    exact ⟨(hfound hth).mem, (hfound hth).generation⟩

namespace Sample

def web : Bytes := ascii "docker://web/net/80"

def first : Resolved := ⟨ascii "http://10.0.0.1:80", ascii "10.0.0.1:80", some [1]⟩

def second : Resolved := ⟨ascii "http://10.0.0.2:80", ascii "10.0.0.2:80", some [2]⟩

/-- A refresh by the thread `tid`, which finds one endpoint. -/
def refresh (tid : Nat) (value : Resolved) : List (Event Job Choice Env) :=
  [.start .refresh, .step tid .go, .step tid (.collected (some [(web, value)])), .step tid .go,
    .step tid .go, .step tid .go, .step tid .go]

/-- Two refreshes that find the same, with a resolution after each of them. -/
def twice : List (Event Job Choice Env) :=
  refresh 0 first ++ [.start (.resolve web .tcp), .step 1 .go, .step 1 .go, .step 1 .go] ++
    refresh 2 first ++ [.start (.resolve web .http), .step 3 .go, .step 3 .go, .step 3 .go]

def entry : Entry := ⟨web, first, 1⟩

theorem run_twice : ((program.under Unwrapped).run ⟨initial none, []⟩ twice).map
    (fun pool => (pool.shared.history, pool.threads)) =
    some ([⟨2, 0, [entry]⟩, ⟨1, 0, [entry]⟩, ⟨0, 0, []⟩],
      [⟨.refresh, .published⟩,
        ⟨.resolve web .tcp, .answered (.resolved ⟨first.tcpBackend, 1⟩ ⟨1, 0, [entry]⟩ none)⟩,
        ⟨.refresh, .published⟩,
        ⟨.resolve web .http,
          .answered (.resolved ⟨first.httpBackend, 1⟩ ⟨2, 0, [entry]⟩ none)⟩]) := by
  decide +kernel

theorem endpoint_epochs_twice :
    ∃ pool, (program.under Unwrapped).run ⟨initial none, []⟩ twice = some pool ∧
      ∃ e : Entry, (⟨first.tcpBackend, 1⟩ : Target) = ⟨e.value.address .tcp, e.epoch⟩ ∧
        (⟨first.httpBackend, 1⟩ : Target) = ⟨e.value.address .http, e.epoch⟩ := by
  obtain ⟨pool, hrun, hpool⟩ := Option.map_eq_some_iff.mp run_twice
  have hthreads := (Prod.mk.inj hpool).2
  obtain ⟨e, he, he', -⟩ := (endpoint_epochs hrun).2.2.1 1 3 web .tcp .http
    ⟨first.tcpBackend, 1⟩ ⟨first.httpBackend, 1⟩ ⟨1, 0, [entry]⟩ ⟨2, 0, [entry]⟩ none none
    (by rw [hthreads]; rfl) (by rw [hthreads]; rfl) rfl (by decide)
  exact ⟨pool, hrun, e, he, he'⟩

/-- **The counter wraps around**: then the epoch of a reference decreases. -/
theorem epoch_decreases :
    ∃ events pool, program.machine.run ⟨initial none, []⟩ events = some pool ∧
      ∃ a b e e', a ∈ pool.shared.history ∧ b ∈ pool.shared.history ∧ a.serial ≤ b.serial ∧
        a.get web = some e ∧ b.get web = some e' ∧ e'.epoch < e.epoch := by
  have hrun : (program.machine.run ⟨initial none, []⟩
      (refresh 0 first ++ [.tick (.take (2 ^ 64 - 2))] ++ refresh 1 second)).map
      (fun pool => pool.shared.history) =
      some [⟨2, 0, [⟨web, second, 0⟩]⟩, ⟨1, 0, [entry]⟩, ⟨0, 0, []⟩] := by
    decide +kernel
  obtain ⟨pool, hrun, hhistory⟩ := Option.map_eq_some_iff.mp hrun
  refine ⟨_, pool, hrun, ⟨1, 0, [entry]⟩, ⟨2, 0, [⟨web, second, 0⟩]⟩, entry, ⟨web, second, 0⟩, ?_⟩
  rw [hhistory]
  decide +kernel

end Sample

end Discovery
