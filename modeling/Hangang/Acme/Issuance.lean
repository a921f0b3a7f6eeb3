import Hangang.Framework.Bytes
import Hangang.Framework.Machine

/-! # Orders of Certificates

    `acme_runtime`: the attempts of the runtime to have a current certificate, with the bundle
    on disk, the material that was issued but not published, and the watcher that loads what
    other instances write.

    * **The machine**: an attempt is taken apart at its awaits and where it reads the status;
      the watcher, writers of the bundle and the clock come in between.
    * **Orders**: what an attempt had found when it placed an order. The watcher may publish a
      bundle that it read long ago just before the attempt looks at the status.
    * **The served certificate** changes only to accepted material. -/

open Bytes

namespace Acme.Issuance

/-- A certificate with its key, as `Bundle` and `PendingIssuance` hold it. -/
structure Material where
  domains : List Bytes
  certificate : Bytes
  key : Bytes
  expires : Nat
  deriving DecidableEq

/-- What the runtime takes from its libraries. -/
structure Libraries where
  decode : Bytes → Option Material
  encode : Material → Bytes
  digest : Bytes → Bytes
  /-- `acme::validate_certificate`: the expiry of valid material. -/
  validate : List Bytes → Bytes → Bytes → Option Nat
  /-- Whether `tls::sni_server_config` takes the material. -/
  serverConfig : Material → Bool

structure Settings where
  domains : List Bytes
  renewBefore : Nat

/-- The checks of `load_bundle`. -/
def accepted (lib : Libraries) (settings : Settings) (bytes : Bytes) : Option Material :=
  (lib.decode bytes).filter fun bundle =>
    bundle.domains = settings.domains &&
      lib.validate bundle.domains bundle.certificate bundle.key = some bundle.expires &&
      lib.serverConfig bundle

/-- Material that need not be renewed yet. -/
def Settings.current (settings : Settings) (expires now : Nat) : Bool :=
  now < expires - settings.renewBefore

/-! ## The machine -/

/-- What an attempt had found when it placed its order. -/
structure Order where
  settings : Settings
  /-- What the attempt's restore read. -/
  read : Option Bytes
  /-- What the watcher published between that restore and the check. -/
  overtaken : Option Material
  checkedAt : Nat
  retained : Option Material
  takenAt : Nat

inductive Phase where
  | idle
  /-- The account lock is held. -/
  | restoring
  | loading (read : Option Bytes)
  | checking (read : Option Bytes) (overtaken : Option Material)
  | deciding (read : Option Bytes) (overtaken : Option Material) (checkedAt : Nat)
  /-- Retained material is published. -/
  | republishing (material : Material)
  | placing (order : Order)
  | ordering
  /-- New material is published; it is retained as well. -/
  | publishing (material : Material)

/-- The watcher publishes a bundle. -/
def Phase.overtake (material : Material) : Phase → Phase
  | .checking read _ => .checking read (some material)
  | phase => phase

structure State where
  settings : Settings
  /-- The file at the bundle's path, if it can be read. -/
  disk : Option Bytes
  served : Option Material
  /-- The digest of the material that is served. -/
  loaded : Option Bytes
  /-- `status.expires_unix`. -/
  expires : Option Nat
  pending : Option Material
  /-- The digest of the last replacement that the watcher rejected. -/
  rejected : Option Bytes
  /-- The watcher loads a bundle: what it has seen, and then read. -/
  watching : Option (Bytes × Option Bytes)
  phase : Phase
  orders : List Order

inductive Publication where
  | published
  /-- It fails, before or after the file was replaced. -/
  | failed (replaced : Bool)

inductive Label where
  /-- Something writes or removes the bundle. -/
  | write (disk : Option Bytes)
  /-- The configuration changed; its bundle is restored. -/
  | configure (settings : Settings)
  /-- A tick of the watcher, which has seen these bytes when it looked first. -/
  | look (seen : Option Bytes)
  | watch
  /-- An attempt gets the account lock. -/
  | lock
  /-- Its restore reads the bundle, and loads it. -/
  | restore
  | load
  | check (now : Nat)
  | take (now : Nat)
  | publish (outcome : Publication)
  /-- The bundle's destination is validated. -/
  | destination (ok : Bool)
  /-- The order is finalised, or fails or is cancelled. -/
  | issue (issued : Option Material)

variable (lib : Libraries)

/-- `publish_loaded`. -/
def publishLoaded (s : State) (bytes : Bytes) (material : Material) : State :=
  { s with
    served := some material
    loaded := some (lib.digest bytes)
    expires := some material.expires }

/-- The bundle that was read, if it is accepted. -/
def bundle (settings : Settings) (read : Option Bytes) : Option (Bytes × Material) :=
  read.bind fun bytes => (accepted lib settings bytes).map (bytes, ·)

/-- `restore`, of what was read. -/
def restore (s : State) (read : Option Bytes) : State :=
  match bundle lib s.settings read with
  | some (bytes, material) => publishLoaded lib s bytes material
  -- `mark_pending`; what is served stays
  | none => { s with expires := none }

/-- `watch_bundle`, until `load_bundle` has read the file once more. -/
def look (s : State) : Option Bytes → State
  | none => s
  | some seen =>
    if some (lib.digest seen) = s.loaded ∨ some (lib.digest seen) = s.rejected then s
    else { s with watching := some (seen, s.disk) }

/-- `watch_bundle`, from there on. -/
def watch (s : State) : State :=
  match s.watching with
  | none => s
  | some (seen, read) =>
    match bundle lib s.settings read with
    | some (bytes, material) =>
      { publishLoaded lib s bytes material with
        rejected := none, watching := none, phase := s.phase.overtake material }
    | none =>
      { s with
        rejected := (read.map lib.digest).or (some (lib.digest seen)), watching := none }

/-- `Sink::publish`. -/
def publish (s : State) (material : Material) : Publication → State
  | .published => publishLoaded lib { s with disk := some (lib.encode material), pending := none }
      (lib.encode material) material
  | .failed true => { s with disk := some (lib.encode material), pending := some material }
  | .failed false => { s with pending := some material }

/-- `take_pending`: retained material that is still worth publishing. -/
def usable (settings : Settings) (now : Nat) (pending : Option Material) : Option Material :=
  pending.filter fun m => m.domains = settings.domains && settings.current m.expires now

/-! Each operation below belongs to one phase of the attempt. -/

/-- The runtime waits for the attempt, and the watcher is part of its loop. -/
def configure (s : State) (settings : Settings) : Option State :=
  match s.phase, s.watching with
  | .idle, none =>
    some { restore lib { s with settings } s.disk with rejected := none, phase := .idle }
  | _, _ => none

def lock (s : State) : Option State :=
  match s.phase with
  | .idle => some { s with phase := .restoring }
  | _ => none

def read (s : State) : Option State :=
  match s.phase with
  | .restoring => some { s with phase := .loading s.disk }
  | _ => none

def load (s : State) : Option State :=
  match s.phase with
  | .loading read => some { restore lib s read with phase := .checking read none }
  | _ => none

/-- `already_current`: there is nothing to do, and retained material is dropped. -/
def check (s : State) (now : Nat) : Option State :=
  match s.phase with
  | .checking read overtaken =>
    if s.expires.any (s.settings.current · now) then some { s with pending := none, phase := .idle }
    else some { s with phase := .deciding read overtaken now }
  | _ => none

def take (s : State) (now : Nat) : Option State :=
  match s.phase with
  | .deciding read overtaken checkedAt =>
    match usable s.settings now s.pending with
    | some material => some { s with pending := none, phase := .republishing material }
    | none => some { s with
        pending := none
        phase := .placing ⟨s.settings, read, overtaken, checkedAt, s.pending, now⟩ }
  | _ => none

def publishPhase (s : State) (outcome : Publication) : Option State :=
  match s.phase with
  | .republishing material => some { publish lib s material outcome with phase := .idle }
  | .publishing material => some { publish lib s material outcome with phase := .idle }
  | _ => none

/-- The order is placed once the destination is found writable. -/
def destination (s : State) (ok : Bool) : Option State :=
  match s.phase with
  | .placing order =>
    if ok then some { s with orders := order :: s.orders, phase := .ordering }
    else some { s with phase := .idle }
  | _ => none

def issue (s : State) (issued : Option Material) : Option State :=
  match s.phase with
  | .ordering =>
    match issued with
    | none => some { s with phase := .idle }
    | some material => some { s with pending := some material, phase := .publishing material }
  | _ => none

def machine : Machine State Label where
  step s
    | .write disk => some { s with disk }
    | .configure settings => configure lib s settings
    | .look seen => some (look lib s seen)
    | .watch => some (watch lib s)
    | .lock => lock s
    | .restore => read s
    | .load => load lib s
    | .check now => check s now
    | .take now => take s now
    | .publish outcome => publishPhase lib s outcome
    | .destination ok => destination s ok
    | .issue issued => issue s issued

variable {lib}

/-! ## Orders -/

/-- The bundle that was loaded last: by the watcher, or by the attempt itself. -/
def lastLoaded (lib : Libraries) (settings : Settings) (read : Option Bytes)
    (overtaken : Option Material) : Option Material :=
  overtaken.or (read.bind (accepted lib settings))

/-- **An order is justified** if neither the stored bundle nor the retained material would do:
    for the same domains, each was inside the renewal window. -/
structure Order.Justified (lib : Libraries) (o : Order) : Prop where
  stored : ∀ m, lastLoaded lib o.settings o.read o.overtaken = some m →
    o.settings.current m.expires o.checkedAt = false
  retained : ∀ m, o.retained = some m → m.domains = o.settings.domains →
    o.settings.current m.expires o.takenAt = false

theorem bundle_snd (settings : Settings) (read : Option Bytes) :
    (bundle lib settings read).map (·.2) = read.bind (accepted lib settings) := by
  cases read with
  | none => rfl
  | some bytes => simp [bundle, Function.comp_def]

/-- After a restore the status tells the expiry of what was read. -/
theorem expires_restore (s : State) (read : Option Bytes) :
    (restore lib s read).expires =
      (read.bind (accepted lib s.settings)).map (·.expires) := by
  rw [← bundle_snd, restore]
  split
  · next h => rw [h]; rfl
  · next h => rw [h]; rfl

theorem restore_frame (s : State) (read : Option Bytes) :
    (restore lib s read).orders = s.orders ∧
      (restore lib s read).settings = s.settings := by
  unfold restore
  split <;> exact ⟨rfl, rfl⟩

theorem publish_frame (s : State) (material : Material) (outcome : Publication) :
    (publish lib s material outcome).orders = s.orders := by
  unfold publish
  split <;> rfl

/-- What an attempt knows at each of its points: first that the status tells the expiry of the
    bundle that was loaded last. -/
def Phase.Sound (lib : Libraries) (settings : Settings) (expires : Option Nat) : Phase → Prop
  | .checking read overtaken =>
    expires = (lastLoaded lib settings read overtaken).map (·.expires)
  | .deciding read overtaken checkedAt =>
    ∀ m, lastLoaded lib settings read overtaken = some m →
      settings.current m.expires checkedAt = false
  | .placing order => order.Justified lib
  | _ => True

structure Inv (lib : Libraries) (s : State) : Prop where
  phase : s.phase.Sound lib s.settings s.expires
  orders : ∀ o ∈ s.orders, o.Justified lib

/-- The watcher takes the place of what was loaded before. -/
theorem Phase.Sound.overtake {settings : Settings} {expires : Option Nat} {phase : Phase}
    (h : phase.Sound lib settings expires) (m : Material) :
    (phase.overtake m).Sound lib settings (some m.expires) := by
  cases phase with
  | checking read overtaken => rfl
  | deciding read overtaken checkedAt => exact h
  | placing order => exact h
  | idle | restoring | loading | republishing | ordering | publishing => trivial

theorem Inv.watch {s : State} (h : Inv lib s) : Inv lib (watch lib s) := by
  unfold Issuance.watch
  split
  · exact h
  · split
    · exact ⟨h.phase.overtake _, h.orders⟩
    · exact ⟨h.phase, h.orders⟩

theorem Inv.look {s : State} (h : Inv lib s) (seen : Option Bytes) :
    Inv lib (look lib s seen) := by
  unfold Issuance.look
  split
  · exact h
  · split <;> exact ⟨h.phase, h.orders⟩

/-- The order that is placed when nothing usable was retained. -/
theorem justified_of_unusable {settings : Settings} {read : Option Bytes}
    {overtaken pending : Option Material} {checkedAt now : Nat}
    (hstored : ∀ m, lastLoaded lib settings read overtaken = some m →
      settings.current m.expires checkedAt = false)
    (hpending : usable settings now pending = none) :
    Order.Justified lib ⟨settings, read, overtaken, checkedAt, pending, now⟩ where
  stored := hstored
  retained m hm hdomains := by
    replace hm : pending = some m := hm
    replace hdomains : m.domains = settings.domains := hdomains
    rw [hm] at hpending
    simpa [usable, hdomains] using hpending

/-- **Step lemma** for the orders. -/
theorem Inv.step {s s' : State} {l : Label} (h : Inv lib s)
    (hstep : (machine lib).step s l = some s') : Inv lib s' := by
  have hsound := h.phase
  cases l with
  | write disk =>
    obtain rfl := Option.some.inj hstep
    exact ⟨h.phase, h.orders⟩
  | look seen =>
    obtain rfl := Option.some.inj hstep
    exact h.look seen
  | watch =>
    obtain rfl := Option.some.inj hstep
    exact h.watch
  | configure settings =>
    replace hstep : Issuance.configure lib s settings = some s' := hstep
    unfold Issuance.configure at hstep
    split at hstep
    · obtain rfl := Option.some.inj hstep
      refine ⟨trivial, ?_⟩
      show ∀ o ∈ (restore lib { s with settings } s.disk).orders, o.Justified lib
      rw [(restore_frame _ _).1]
      exact h.orders
    · cases hstep
  | lock =>
    replace hstep : Issuance.lock s = some s' := hstep
    unfold Issuance.lock at hstep
    split at hstep
    · obtain rfl := Option.some.inj hstep
      exact ⟨trivial, h.orders⟩
    · cases hstep
  | restore =>
    replace hstep : Issuance.read s = some s' := hstep
    unfold Issuance.read at hstep
    split at hstep
    · obtain rfl := Option.some.inj hstep
      exact ⟨trivial, h.orders⟩
    · cases hstep
  | load =>
    replace hstep : Issuance.load lib s = some s' := hstep
    unfold Issuance.load at hstep
    split at hstep
    · next read hphase =>
      obtain rfl := Option.some.inj hstep
      refine ⟨?_, (restore_frame s read).1 ▸ h.orders⟩
      show (restore lib s read).expires = _
      rw [(restore_frame s read).2, expires_restore]
      rfl
    · cases hstep
  -- the first point at which the attempt learns something: the status is that of the stored bundle
  | check now =>
    replace hstep : Issuance.check s now = some s' := hstep
    unfold Issuance.check at hstep
    split at hstep
    · next read overtaken hphase =>
      rw [hphase] at hsound
      split at hstep
      · obtain rfl := Option.some.inj hstep
        exact ⟨trivial, h.orders⟩
      · next hcurrent =>
        obtain rfl := Option.some.inj hstep
        refine ⟨?_, h.orders⟩
        intro m hm
        rw [show s.expires = (lastLoaded lib s.settings read overtaken).map (·.expires) from hsound,
          hm] at hcurrent
        simpa using hcurrent
    · cases hstep
  -- what the check has found is kept in the phase; the retained material is looked at now
  | take now =>
    replace hstep : Issuance.take s now = some s' := hstep
    unfold Issuance.take at hstep
    split at hstep
    · next read overtaken checkedAt hphase =>
      rw [hphase] at hsound
      split at hstep
      · obtain rfl := Option.some.inj hstep
        exact ⟨trivial, h.orders⟩
      · next hunusable =>
        obtain rfl := Option.some.inj hstep
        exact ⟨justified_of_unusable hsound hunusable, h.orders⟩
    · cases hstep
  | publish outcome =>
    replace hstep : publishPhase lib s outcome = some s' := hstep
    unfold publishPhase at hstep
    split at hstep
    · obtain rfl := Option.some.inj hstep
      exact ⟨trivial, (publish_frame s _ outcome) ▸ h.orders⟩
    · obtain rfl := Option.some.inj hstep
      exact ⟨trivial, (publish_frame s _ outcome) ▸ h.orders⟩
    · cases hstep
  | destination ok =>
    replace hstep : Issuance.destination s ok = some s' := hstep
    unfold Issuance.destination at hstep
    split at hstep
    · next order hphase =>
      rw [hphase] at hsound
      cases ok with
      | true =>
        obtain rfl := Option.some.inj hstep
        exact ⟨trivial, List.forall_mem_cons.mpr ⟨hsound, h.orders⟩⟩
      | false =>
        obtain rfl := Option.some.inj hstep
        exact ⟨trivial, h.orders⟩
    · cases hstep
  | issue issued =>
    replace hstep : Issuance.issue s issued = some s' := hstep
    unfold Issuance.issue at hstep
    split at hstep
    · cases issued with
      | none =>
        obtain rfl := Option.some.inj hstep
        exact ⟨trivial, h.orders⟩
      | some material =>
        obtain rfl := Option.some.inj hstep
        exact ⟨trivial, h.orders⟩
    · cases hstep

/-! ## The served certificate -/

/-- Bytes that the runtime has at hand: on disk, or read from there before. -/
def Reads (s : State) (bytes : Bytes) : Prop :=
  s.disk = some bytes ∨ s.phase = .loading (some bytes) ∨
    ∃ seen, s.watching = some (seen, some bytes)

def initial (settings : Settings) (disk : Option Bytes) : State :=
  ⟨settings, disk, none, none, none, none, none, none, .idle, []⟩

namespace Sample

def material (serial : UInt8) : Material :=
  ⟨[ascii "example.test"], [serial], [2], serial.toNat * 100⟩

/-- A certificate tells when it expires, and its bundle is as good as the certificate. -/
def libraries : Libraries where
  decode bytes := bytes.head?.map material
  encode := Material.certificate
  digest := id
  validate _ certificate _ := certificate.head?.map fun serial => serial.toNat * 100
  serverConfig _ := true

def settings : Settings := ⟨[ascii "example.test"], 100⟩

/-- The bundle is due for renewal. An order is placed, its publication fails, and the next
    attempt publishes what was issued. -/
def run : List Label :=
  [.lock, .restore, .load, .check 10, .take 10, .destination true, .issue (some (material 9)),
    .publish (.failed false), .lock, .restore, .load, .check 20, .take 20, .publish .published]

end Sample

end Acme.Issuance
