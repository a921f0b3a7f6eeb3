import Hangang.Framework.Bytes
import Hangang.Framework.Machine
import Hangang.Framework.Table
import Mathlib.Logic.Function.Iterate

/-! # Receipts of DNS Challenges

    The bookkeeping of `CloudflareDnsProvider` and its `CleanupLedger`. A presentation may
    create a TXT record and lose the answer; a cleanup may delete a record and lose the
    confirmation. Whatever happens at an await point, the record is kept as owned or its
    presentation as uncertain, until the deletion is confirmed or the eighth attempt failed.

    * **The machine**: presentations, cleanups, reconciliations, retries and reloads, each
      with the point at which it was cut off.
    * **Coverage**: what the provider may hold for the gateway is recorded.
    * **Reloads**: a changed configuration starts with a new provider object, whose sets are
      empty. Coverage survives exactly the reloads that find nothing to be recorded. -/

open Bytes

namespace Acme.Receipts

/-- `MAX_CLEANUP_ATTEMPTS`. -/
def maxCleanupAttempts : Nat := 8

structure DnsRecord where
  id : Bytes
  name : Bytes
  value : Bytes
  deriving DecidableEq

/-- What presentations are told apart by: the name up to case, and the value. -/
abbrev Key : Type := Bytes × Bytes

def keyOf (name value : Bytes) : Key := (name.map toAsciiLowercase, value)

def DnsRecord.key (r : DnsRecord) : Key := keyOf r.name r.value

/-- The check of record ids. -/
def validId (id : Bytes) : Bool :=
  !id.isEmpty && id.length ≤ 128 && id.all fun b => isAsciiAlphanumeric b || b == 95 || b == 45

/-- Failed attempts; an entry that has failed eight times is not kept. -/
abbrev Attempts : Type := Fin maxCleanupAttempts

structure DeferredCleanup where
  record : DnsRecord
  attempts : Attempts

/-- The sets of one provider object; `uncertain` has the attempts of each presentation. -/
structure Provider where
  owned : Table Bytes DnsRecord
  deferred : List DeferredCleanup
  uncertain : Table Key Attempts

namespace Provider

def new : Provider := ⟨∅, [], ∅⟩

def own (p : Provider) (record : DnsRecord) : Provider :=
  { p with owned := p.owned.insert record.id record }

def forget (p : Provider) (id : Bytes) : Provider := { p with owned := p.owned.erase id }

/-- The intent of a presentation is dropped without confirmation. -/
def dropIntent (p : Provider) (key : Key) : Provider :=
  if (p.uncertain.lookup key).isSome then p
  else { p with uncertain := p.uncertain.insert key ⟨0, by decide⟩ }

def defer (p : Provider) (record : DnsRecord) : Provider :=
  if p.deferred.any fun entry => entry.record.id == record.id then p
  else { p with deferred := p.deferred ++ [⟨record, ⟨0, by decide⟩⟩] }

def finishDeferred (p : Provider) (id : Bytes) : Provider :=
  { p with deferred := p.deferred.filter fun entry => entry.record.id != id }

/-- The first entry of the id has so many failed attempts. -/
def setAttempts (id : Bytes) (attempts : Attempts) : List DeferredCleanup → List DeferredCleanup
  | [] => []
  | e :: rest =>
    if e.record.id = id then { e with attempts } :: rest else e :: setAttempts id attempts rest

/-- The failed retry is counted; says whether the receipt is given up. -/
def failDeferred (p : Provider) (id : Bytes) : Provider × Bool :=
  match p.deferred.find? fun entry => entry.record.id == id with
  | none => (p, false)
  | some entry =>
    if h : entry.attempts + 1 < maxCleanupAttempts then
      ({ p with deferred := setAttempts id ⟨entry.attempts + 1, h⟩ p.deferred }, false)
    else (p.finishDeferred id, true)

def finishUncertain (p : Provider) (key : Key) : Provider :=
  { p with uncertain := p.uncertain.erase key }

def failUncertain (p : Provider) (key : Key) : Provider × Bool :=
  match p.uncertain.lookup key with
  | none => (p, false)
  | some attempts =>
    if h : attempts + 1 < maxCleanupAttempts then
      ({ p with uncertain := p.uncertain.insert key ⟨attempts + 1, h⟩ }, false)
    else (p.finishUncertain key, true)

end Provider

/-! ## The machine -/

/-- The provider object in use, the TXT records of the zone, and what happened so far. -/
structure State where
  provider : Provider
  zone : List DnsRecord
  /-- The ids that the zone gave to records of this gateway. -/
  created : List Bytes
  /-- The ids that were given up. -/
  abandoned : List Bytes

def initial (zone : List DnsRecord) : State := ⟨.new, zone, [], []⟩

/-- What becomes of the request that creates a record. -/
inductive Answer where
  /-- The answer is processed and accepted. -/
  | accepted (record : DnsRecord)
  /-- The zone has such a record already, and the listing succeeds. -/
  | duplicate
  /-- The request fails, is cancelled or times out; the record may have been created. -/
  | lost (record : Option DnsRecord)

/-- How far a cleanup comes. -/
inductive Reply where
  /-- The lookup of the record fails. -/
  | failed
  /-- The record is looked up, and nothing more is sent. -/
  | unsent
  /-- The deletion takes effect without being confirmed. -/
  | unconfirmed
  | confirmed

inductive Label where
  | present (name value : Bytes) (answer : Answer)
  | cleanup (record : DnsRecord) (reply : Reply)
  | defer (record : DnsRecord)
  /-- A due presentation is looked up in the zone, or that fails. -/
  | reconcile (key : Key) (ok : Bool)
  /-- A due cleanup is tried again. -/
  | retry (record : DnsRecord) (reply : Reply)
  /-- The configuration changed. -/
  | reload
  /-- Others change the zone; they may delete the gateway's records. -/
  | others (zone : List DnsRecord)

/-- `reconcile_uncertain`: the records of exactly this name and value. -/
def listing (s : State) (key : Key) : List DnsRecord :=
  s.zone.filter fun r => r.key == key && validId r.id

/-- The record is recorded as owned. -/
def adopt (s : State) (record : DnsRecord) : State :=
  { s with provider := s.provider.own record }

/-- The zone creates a record for the gateway. -/
def create (s : State) (record : DnsRecord) : State :=
  { s with zone := record :: s.zone, created := record.id :: s.created }

def delete (s : State) (id : Bytes) : State :=
  { s with zone := s.zone.filter fun r => r.id != id }

def withProvider (s : State) (p : Provider) : State := { s with provider := p }

/-- `owned_records.len() + ledger.pending() < 4096`, and the limits on name and value. -/
def accepts (s : State) (name value : Bytes) : Bool :=
  !name.isEmpty && name.length ≤ 300 && !value.isEmpty && value.length ≤ 256 &&
    s.provider.owned.size + s.provider.uncertain.size < 4096

/-- The record is one that the zone can create for the presentation; its id is new. -/
def Answers (s : State) (record : DnsRecord) (key : Key) : Prop :=
  record.key = key ∧ validId record.id = true ∧ ∀ r ∈ s.zone, r.id ≠ record.id

instance (s : State) (record : DnsRecord) (key : Key) : Decidable (Answers s record key) :=
  inferInstanceAs (Decidable (_ ∧ _ ∧ ∀ r ∈ s.zone, r.id ≠ record.id))

/-- The zone refuses a duplicate: the one record that it has is adopted. -/
def recover (s : State) (key : Key) : State :=
  match listing s key with
  | [record] => adopt s record
  | _ => withProvider s (s.provider.dropIntent key)

/-- `CloudflareDnsProvider::present`. -/
def present (s : State) (key : Key) : Answer → Option State
  | .accepted record =>
    if Answers s record key then some (adopt (create s record) record) else none
  | .duplicate => some (recover s key)
  | .lost none => some (withProvider s (s.provider.dropIntent key))
  | .lost (some record) =>
    if Answers s record key then some (withProvider (create s record) (s.provider.dropIntent key))
    else none

def sameRecord (a b : DnsRecord) : Prop := a.key = b.key

instance (a b : DnsRecord) : Decidable (sameRecord a b) := inferInstanceAs (Decidable (_ = _))

/-- `CloudflareDnsProvider::cleanup`, and whether it succeeded. -/
def cleanup (s : State) (record : DnsRecord) (reply : Reply) : State × Bool :=
  match s.provider.owned.lookup record.id with
  | none => (s, false)
  | some owned =>
    if ¬ sameRecord owned record then (s, false)
    else match reply with
      | .failed => (s, false)
      | _ =>
        match s.zone.find? fun r => r.id == record.id with
        | none => (withProvider s (s.provider.forget record.id), true)
        | some current =>
          if ¬ sameRecord current record then (s, false)
          else match reply with
            | .unconfirmed => (delete s record.id, false)
            | .confirmed =>
              (withProvider (delete s record.id) (s.provider.forget record.id), true)
            | _ => (s, false)

/-- The receipts that a reconciliation found. -/
def claim (s : State) (record : DnsRecord) : State :=
  withProvider (adopt s record) ((adopt s record).provider.defer record)

def abandon (s : State) (ids : List Bytes) : State := { s with abandoned := ids ++ s.abandoned }

/-- One uncertain presentation of `run_cleanup_retries`. -/
def reconcile (s : State) (key : Key) (ok : Bool) : State :=
  if ok then
    let s := (listing s key).foldl claim s
    withProvider s (s.provider.finishUncertain key)
  else
    let (p, givenUp) := s.provider.failUncertain key
    if givenUp then abandon (withProvider s p) ((listing s key).map (·.id)) else withProvider s p

/-- One deferred cleanup of `run_cleanup_retries`. -/
def retry (s : State) (record : DnsRecord) (reply : Reply) : State :=
  let (s, ok) := cleanup s record reply
  if ok then withProvider s (s.provider.finishDeferred record.id)
  else
    let (p, givenUp) := s.provider.failDeferred record.id
    if givenUp then abandon (withProvider s (p.forget record.id)) [record.id]
    else withProvider s p

/-- The zone after a change by others has no other records of the gateway. -/
def Foreign (s : State) (zone : List DnsRecord) : Prop :=
  ∀ r ∈ zone, r.id ∈ s.created → r ∈ s.zone

instance (s : State) (zone : List DnsRecord) : Decidable (Foreign s zone) :=
  inferInstanceAs (Decidable (∀ r ∈ zone, r.id ∈ s.created → r ∈ s.zone))

/-- A new provider object takes the place of the old one. -/
def reload (s : State) : State := withProvider s .new

def machine : Machine State Label where
  step s
    | .present name value answer =>
      if accepts s name value then present s (keyOf name value) answer else some s
    | .cleanup record reply => some (cleanup s record reply).1
    | .defer record => some (withProvider s (s.provider.defer record))
    | .reconcile key ok =>
      if (s.provider.uncertain.lookup key).isSome then some (reconcile s key ok) else none
    | .retry record reply =>
      if s.provider.deferred.any fun e => e.record == record then some (retry s record reply)
      else none
    | .reload => some (reload s)
    | .others zone => if Foreign s zone then some { s with zone } else none

/-! ## What the operations do -/

/-- The four things that a cleanup can do. -/
theorem cleanup_cases (s : State) (record : DnsRecord) (reply : Reply) :
    cleanup s record reply = (s, false) ∨
    (∃ owned, s.provider.owned.lookup record.id = some owned) ∧
      ((∀ r ∈ s.zone, r.id ≠ record.id) ∧
        cleanup s record reply = (withProvider s (s.provider.forget record.id), true) ∨
      cleanup s record reply = (delete s record.id, false) ∨
      cleanup s record reply =
        (withProvider (delete s record.id) (s.provider.forget record.id), true)) := by
  unfold cleanup
  cases howned : s.provider.owned.lookup record.id with
  | none => exact .inl rfl
  | some owned =>
    by_cases hsame : sameRecord owned record
    · cases hfind : s.zone.find? fun r => r.id == record.id with
      | none =>
        have hgone : ∀ r ∈ s.zone, ¬ r.id = record.id := by simpa using hfind
        cases reply with
        | failed => exact .inl (by simp [hsame])
        | unsent | unconfirmed | confirmed =>
          exact .inr ⟨⟨owned, rfl⟩, .inl ⟨hgone, by simp [hsame]⟩⟩
      | some current =>
        by_cases hcurrent : sameRecord current record <;> cases reply <;> simp [hsame, hcurrent]
    · exact .inl (by simp [hsame])

/-- The record is kept, or was given up. -/
def Recorded (s : State) (r : DnsRecord) : Prop :=
  (s.provider.owned.lookup r.id).isSome = true ∨ (s.provider.uncertain.lookup r.key).isSome = true ∨
    r.id ∈ s.abandoned

/-- Every record of the gateway is kept, or was given up; its id passes the check. -/
def Covered (s : State) : Prop :=
  ∀ r ∈ s.zone, r.id ∈ s.created → validId r.id = true ∧ Recorded s r

variable {r : DnsRecord} {s s' : State} {p : Provider}

/-- What is recorded stays recorded where nothing is dropped. -/
theorem Recorded.mono (h : Recorded s r)
    (howned : ∀ id, (s.provider.owned.lookup id).isSome = true →
      (s'.provider.owned.lookup id).isSome = true)
    (huncertain : ∀ key, (s.provider.uncertain.lookup key).isSome = true →
      (s'.provider.uncertain.lookup key).isSome = true) (habandoned : s'.abandoned = s.abandoned) :
    Recorded s' r := by
  unfold Recorded at h ⊢
  rw [habandoned]
  exact h.imp (howned _) (Or.imp_left (huncertain _))

theorem isSome_dropIntent (p : Provider) (key key' : Key)
    (h : (p.uncertain.lookup key').isSome = true ∨ key' = key) :
    ((p.dropIntent key).uncertain.lookup key').isSome = true := by
  unfold Provider.dropIntent
  split
  · next hsome => exact h.elim id fun heq => heq ▸ hsome
  · rcases h with h | rfl
    · exact Table.isSome_insert h
    · exact congrArg Option.isSome (AList.lookup_insert p.uncertain)

@[simp] theorem owned_dropIntent (p : Provider) (key : Key) :
    (p.dropIntent key).owned = p.owned := by
  unfold Provider.dropIntent
  split <;> rfl

@[simp] theorem owned_defer (p : Provider) (record : DnsRecord) :
    (p.defer record).owned = p.owned := by
  unfold Provider.defer
  split <;> rfl

@[simp] theorem uncertain_defer (p : Provider) (record : DnsRecord) :
    (p.defer record).uncertain = p.uncertain := by
  unfold Provider.defer
  split <;> rfl

/-! ## Coverage -/

namespace Recorded

variable {s : State} {r : DnsRecord}

theorem dropIntent (h : Recorded s r) (key : Key) :
    Recorded (withProvider s (s.provider.dropIntent key)) r := by
  refine h.mono (fun id hid => ?_) (fun key' hkey => ?_) rfl
  · show ((s.provider.dropIntent key).owned.lookup id).isSome = true
    rwa [owned_dropIntent]
  · exact isSome_dropIntent s.provider key key' (.inl hkey)

theorem adopt (h : Recorded s r) (record : DnsRecord) : Recorded (adopt s record) r :=
  h.mono (fun _ => Table.isSome_insert) (fun _ => id) rfl

theorem defer (h : Recorded s r) (record : DnsRecord) :
    Recorded (withProvider s (s.provider.defer record)) r := by
  refine h.mono (fun id hid => ?_) (fun key hkey => ?_) rfl
  · show ((s.provider.defer record).owned.lookup id).isSome = true
    rwa [owned_defer]
  · show ((s.provider.defer record).uncertain.lookup key).isSome = true
    rwa [uncertain_defer]

end Recorded

namespace Covered

variable {s s' : State}

/-- **Coverage rule**: nothing is created, and each record left in the zone stays recorded. -/
theorem mono (h : Covered s)
    (hzone : ∀ r ∈ s'.zone, r.id ∈ s'.created → r ∈ s.zone ∧ r.id ∈ s.created)
    (hkeeps : ∀ r ∈ s'.zone, validId r.id = true → r.id ∈ s.created → Recorded s r → Recorded s' r) :
    Covered s' := by
  intro r hr hid
  obtain ⟨hr', hid'⟩ := hzone r hr hid
  obtain ⟨hvalid, hrecorded⟩ := h r hr' hid'
  exact ⟨hvalid, hkeeps r hr hvalid hid' hrecorded⟩

theorem dropIntent (h : Covered s) (key : Key) :
    Covered (withProvider s (s.provider.dropIntent key)) :=
  h.mono (fun _ => .intro) fun _ _ _ _ hr => hr.dropIntent key

theorem adopt (h : Covered s) (record : DnsRecord) : Covered (adopt s record) :=
  h.mono (fun _ => .intro) fun _ _ _ _ hr => hr.adopt record

theorem defer (h : Covered s) (record : DnsRecord) :
    Covered (withProvider s (s.provider.defer record)) :=
  h.mono (fun _ => .intro) fun _ _ _ _ hr => hr.defer record

/-- A new record is covered if it is recorded at once, and nothing else is dropped. -/
theorem of_create (h : Covered s) {record : DnsRecord} {key : Key} (hanswers : Answers s record key)
    (hzone : s'.zone = record :: s.zone) (hcreated : s'.created = record.id :: s.created)
    (hrecord : Recorded s' record) (hkeeps : ∀ r, Recorded s r → Recorded s' r) : Covered s' := by
  intro r hr hid
  rw [hzone] at hr
  rw [hcreated] at hid
  rcases List.mem_cons.mp hr with rfl | hr
  · exact ⟨hanswers.2.1, hrecord⟩
  · have hold := (List.mem_cons.mp hid).resolve_left (hanswers.2.2 r hr)
    exact (h r hr hold).imp_right (hkeeps r)

theorem present (h : Covered s) {key : Key} {answer : Answer}
    (hstep : present s key answer = some s') : Covered s' := by
  cases answer with
  | accepted record =>
    obtain ⟨hanswers, hstep⟩ := Option.ite_none_right_eq_some.mp hstep
    obtain rfl := Option.some.inj hstep
    refine h.of_create hanswers rfl rfl (.inl ?_) fun r hr => hr.adopt record
    exact congrArg Option.isSome (AList.lookup_insert s.provider.owned)
  | duplicate =>
    obtain rfl := Option.some.inj hstep
    unfold recover
    split
    · exact h.adopt _
    · exact h.dropIntent key
  | lost created =>
    cases created with
    | none =>
      obtain rfl := Option.some.inj hstep
      exact h.dropIntent key
    | some record =>
      obtain ⟨hanswers, hstep⟩ := Option.ite_none_right_eq_some.mp hstep
      obtain rfl := Option.some.inj hstep
      refine h.of_create hanswers rfl rfl (.inr (.inl ?_)) fun r hr => hr.dropIntent key
      exact isSome_dropIntent _ _ _ (.inr hanswers.1)

/-- An id may be forgotten once the zone has no record of it, or when it is given up. -/
theorem of_forget (h : Covered s) {id : Bytes} (hzone : ∀ r ∈ s'.zone, r ∈ s.zone)
    (hcreated : s'.created = s.created) (howned : s'.provider.owned = s.provider.owned.erase id)
    (huncertain : s'.provider.uncertain = s.provider.uncertain)
    (habandoned : ∀ id' ∈ s.abandoned, id' ∈ s'.abandoned)
    (hid : ∀ r ∈ s'.zone, r.id = id → id ∈ s'.abandoned) : Covered s' := by
  apply h.mono
  · intro r hr hmem
    exact ⟨hzone r hr, hcreated ▸ hmem⟩
  · intro r hr _ _ hrecorded
    by_cases hsame : r.id = id
    · exact .inr (.inr (hsame ▸ hid r hr hsame))
    · rcases hrecorded with hown | hunc | hab
      · refine .inl ?_
        rw [howned, AList.lookup_erase_ne hsame]
        exact hown
      · exact .inr (.inl (huncertain ▸ hunc))
      · exact .inr (.inr (habandoned _ hab))

theorem cleanup (h : Covered s) (record : DnsRecord) (reply : Reply) :
    Covered (cleanup s record reply).1 := by
  rcases cleanup_cases s record reply with heq | ⟨-, ⟨hgone, heq⟩ | heq | heq⟩
  · rwa [heq]
  · rw [heq]
    exact h.of_forget (fun _ => id) rfl rfl rfl (fun _ => id) fun r hr hsame =>
      absurd hsame (hgone r hr)
  · rw [heq]
    exact h.mono (fun r hr hid => ⟨List.mem_of_mem_filter hr, hid⟩) fun _ _ _ _ => id
  · rw [heq]
    refine h.of_forget (fun _ => List.mem_of_mem_filter) rfl rfl rfl (fun _ => id) ?_
    intro r hr hsame
    exact absurd hsame (by simpa using (List.mem_filter.mp hr).2)

/-- A presentation is settled when all that the zone has of it is owned or given up. -/
theorem of_settle {s s' : State} (h : Covered s) {key : Key} (hzone : s'.zone = s.zone)
    (hcreated : s'.created = s.created)
    (howned : ∀ id, (s.provider.owned.lookup id).isSome = true →
      (s'.provider.owned.lookup id).isSome = true)
    (huncertain : s'.provider.uncertain = s.provider.uncertain.erase key)
    (habandoned : ∀ id ∈ s.abandoned, id ∈ s'.abandoned)
    (hkey : ∀ r ∈ listing s key, Recorded s' r) : Covered s' := by
  apply h.mono
  · intro r hr hmem
    exact ⟨hzone ▸ hr, hcreated ▸ hmem⟩
  · intro r hr hvalid _ hrecorded
    rw [hzone] at hr
    by_cases hsame : r.key = key
    · exact hkey r (List.mem_filter.mpr ⟨hr, by simp [hsame, hvalid]⟩)
    · rcases hrecorded with hown | hunc | hab
      · exact .inl (howned _ hown)
      · refine .inr (.inl ?_)
        rw [huncertain, AList.lookup_erase_ne hsame]
        exact hunc
      · exact .inr (.inr (habandoned _ hab))

end Covered

/-- What a reconciliation does to the sets. -/
structure Claimed (s s' : State) (records : List DnsRecord) : Prop where
  zone : s'.zone = s.zone
  created : s'.created = s.created
  uncertain : s'.provider.uncertain = s.provider.uncertain
  abandoned : s'.abandoned = s.abandoned
  kept : ∀ id, (s.provider.owned.lookup id).isSome = true →
    (s'.provider.owned.lookup id).isSome = true
  owned : ∀ r ∈ records, (s'.provider.owned.lookup r.id).isSome = true

theorem claimed (s : State) (records : List DnsRecord) :
    Claimed s (records.foldl claim s) records := by
  induction records generalizing s with
  | nil => exact ⟨rfl, rfl, rfl, rfl, fun _ => id, by simp⟩
  | cons record records ih =>
    have hrest := ih (claim s record)
    have howned : (claim s record).provider.owned = s.provider.owned.insert record.id record :=
      owned_defer _ _
    have hkept : ∀ id, (s.provider.owned.lookup id).isSome = true →
        ((claim s record).provider.owned.lookup id).isSome = true := by
      intro id hid
      rw [howned]
      exact Table.isSome_insert hid
    refine ⟨hrest.zone, hrest.created, hrest.uncertain.trans (uncertain_defer _ _),
      hrest.abandoned, fun id hid => hrest.kept id (hkept id hid), fun r hr => ?_⟩
    rcases List.mem_cons.mp hr with rfl | hr
    · apply hrest.kept
      rw [howned, AList.lookup_insert]
      rfl
    · exact hrest.owned r hr

namespace Covered

variable {s : State}

theorem reconcile (h : Covered s) (key : Key) (ok : Bool) : Covered (reconcile s key ok) := by
  cases ok with
  | true =>
    have hclaimed := claimed s (listing s key)
    refine @of_settle s _ h key hclaimed.zone hclaimed.created hclaimed.kept ?_ ?_ ?_
    · exact congrArg (AList.erase key) hclaimed.uncertain
    · intro id hid
      exact hclaimed.abandoned ▸ hid
    · exact fun r hr => .inl (hclaimed.owned r hr)
  | false =>
    unfold Receipts.reconcile Provider.failUncertain
    cases hlookup : s.provider.uncertain.lookup key with
    | none => exact h
    | some attempts =>
      by_cases hless : (attempts : Nat) + 1 < maxCleanupAttempts
      · simp only [Bool.false_eq_true, if_false, dif_pos hless]
        refine h.mono (fun _ => .intro) fun _ _ _ _ hr => ?_
        exact hr.mono (fun _ => id) (fun _ => Table.isSome_insert) rfl
      · simp only [Bool.false_eq_true, if_false, dif_neg hless, if_true]
        refine @of_settle s _ h key rfl rfl (fun _ => id) rfl ?_ ?_
        · exact fun _ => List.mem_append_right _
        · exact fun r hr => .inr (.inr (List.mem_append_left _ (List.mem_map.mpr ⟨r, hr, rfl⟩)))

theorem retry (h : Covered s) (record : DnsRecord) (reply : Reply) :
    Covered (retry s record reply) := by
  have hclean := h.cleanup record reply
  unfold Receipts.retry
  generalize Receipts.cleanup s record reply = result at hclean
  obtain ⟨s, ok⟩ := result
  cases ok with
  | true => exact hclean
  | false =>
    unfold Provider.failDeferred
    simp only [Bool.false_eq_true, if_false]
    cases s.provider.deferred.find? fun e => e.record.id == record.id with
    | none => exact hclean
    | some entry =>
      by_cases hless : (entry.attempts : Nat) + 1 < maxCleanupAttempts
      · simp only [dif_pos hless]
        exact hclean
      · simp only [dif_neg hless, if_true]
        refine hclean.of_forget (fun _ => id) rfl rfl rfl ?_ ?_
        · exact fun _ => List.mem_cons_of_mem _
        · exact fun _ _ _ => List.mem_cons_self

end Covered

/-! ## Reloads -/

/-- Nothing is to be recorded: the gateway's records in the zone were given up. -/
def Settled (s : State) : Prop :=
  ∀ r ∈ s.zone, r.id ∈ s.created → r.id ∈ s.abandoned

instance (s : State) : Decidable (Settled s) :=
  inferInstanceAs (Decidable (∀ r ∈ s.zone, r.id ∈ s.created → r.id ∈ s.abandoned))

/-- **A reload keeps the receipts only where there are none to keep.** -/
theorem covered_reload (h : Covered s) : Covered (reload s) ↔ Settled s := by
  constructor
  · intro hreload r hr hid
    simpa [Recorded, reload, withProvider, Provider.new] using (hreload r hr hid).2
  · intro hsettled r hr hid
    exact ⟨(h r hr hid).1, .inr (.inr (hsettled r hr hid))⟩

def Label.isReload : Label → Bool
  | .reload => true
  | _ => false

/-- A reload finds nothing to be recorded. -/
def Careful (s : State) (l : Label) : Prop := l.isReload = true → Settled s

instance (s : State) (l : Label) : Decidable (Careful s l) :=
  inferInstanceAs (Decidable (_ → _))

/-- **Step lemma** for the coverage. -/
theorem Covered.step {s s' : State} {l : Label} (h : Covered s) (hcareful : Careful s l)
    (hstep : machine.step s l = some s') : Covered s' := by
  cases l with
  | present name value answer =>
    replace hstep : (if accepts s name value then Receipts.present s (keyOf name value) answer
      else some s) = some s' := hstep
    split at hstep
    · exact h.present hstep
    · exact Option.some.inj hstep ▸ h
  | cleanup record reply => exact Option.some.inj hstep ▸ h.cleanup record reply
  | defer record => exact Option.some.inj hstep ▸ h.defer record
  | reconcile key ok =>
    obtain ⟨-, hstep⟩ := Option.ite_none_right_eq_some.mp hstep
    exact Option.some.inj hstep ▸ h.reconcile key ok
  | retry record reply =>
    obtain ⟨-, hstep⟩ := Option.ite_none_right_eq_some.mp hstep
    exact Option.some.inj hstep ▸ h.retry record reply
  | reload => exact Option.some.inj hstep ▸ (covered_reload h).mpr (hcareful rfl)
  | others zone =>
    obtain ⟨hforeign, hstep⟩ := Option.ite_none_right_eq_some.mp hstep
    obtain rfl := Option.some.inj hstep
    exact h.mono (fun r hr hid => ⟨hforeign r hr hid, hid⟩) fun _ _ _ _ => id

/-! ## Deletions -/

namespace Sample

def record : DnsRecord := ⟨ascii "r1", ascii "_acme-challenge.example.test", ascii "proof"⟩

/-- The answer to a presentation is lost. -/
def lost : Label := .present record.name record.value (.lost (some record))

end Sample

end Acme.Receipts
