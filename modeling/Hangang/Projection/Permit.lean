import Hangang.Framework.Http
import Mathlib.Data.Option.Basic

/-! # Permits and Projected Credentials

    A permit is a signed permission that was checked once, with the time it was checked
    at by the wall clock and by the monotonic one. The owner may shorten it, and a
    credential made from it ends with it. Both are judged by the later of the wall clock
    and the time that has run since the check. The clock of the credential starts anew
    when it is made, so the dispatch looks at the permit once more: setting the wall
    clock back gains nothing. -/

open Bytes Http

namespace Projection

/-! ## Lifetimes -/

/-- The checked time with what has elapsed since then; `saturating_add`. Instants are
    milliseconds of the monotonic clock. -/
def aged (checkedMs : UInt64) (begun instant : Nat) : Nat :=
  min (checkedMs.toNat + min (instant - begun) (2 ^ 64 - 1)) (2 ^ 64 - 1)

/-- The body of the three functions `valid_at`. -/
def validAt (checkedMs : UInt64) (begun : Nat) (expiresMs now : UInt64) (instant : Nat) : Bool :=
  decide (checkedMs ≤ now) &&
    decide (max now.toNat (aged checkedMs begun instant) < expiresMs.toNat)

/-- Both clocks are before the end. -/
theorem lt_of_validAt {checkedMs expiresMs now : UInt64} {begun instant : Nat}
    (h : validAt checkedMs begun expiresMs now instant = true) :
    now < expiresMs ∧ checkedMs.toNat + (instant - begun) < expiresMs.toNat := by
  unfold validAt aged at h
  rw [Bool.and_eq_true, decide_eq_true_iff, decide_eq_true_iff, Nat.max_lt] at h
  obtain ⟨-, hwall, haged⟩ := h
  have hfits := expiresMs.toNat_lt
  refine ⟨UInt64.lt_iff_toNat_lt.mpr hwall, ?_⟩
  omega

/-! ## Receipts -/

structure Identity where
  subjectRef : Bytes
  kind : Int
  aal : Nat
  revision : UInt64
  credentialGeneration : UInt64
  deriving DecidableEq, Repr

/-- A context, on the wire or of a checked receipt. -/
structure Context where
  issuerRef : Bytes
  keyEpoch : UInt64
  identityAuthorityEpoch : Bytes
  identity : Option Identity
  service : Bytes
  audience : Bytes
  requestSha256 : Bytes
  deriving DecidableEq, Repr

structure CheckedAuthentication where
  verifiedMs : UInt64
  begun : Nat
  bytes : Bytes
  expiresMs : UInt64
  deriving DecidableEq, Repr

def CheckedAuthentication.validAt (authentication : CheckedAuthentication) (now : UInt64)
    (instant : Nat) : Bool :=
  Projection.validAt authentication.verifiedMs authentication.begun authentication.expiresMs now
    instant

/-- Of a service: its kind is 2 and its assurance 0. -/
structure CheckedServiceReceipt where
  issuer : Bytes
  keyEpoch : UInt64
  identityEpoch : Bytes
  service : Bytes
  audience : Bytes
  requestSha256 : Bytes
  authentication : CheckedAuthentication
  subject : Bytes
  revision : UInt64
  credentialGeneration : UInt64
  deriving DecidableEq, Repr

/-! ## Permits -/

structure PermitBinding where
  authenticationReceiptSha256 : Bytes
  decisionRef : Bytes
  resource : Bytes
  action : Bytes
  authorityEpoch : Bytes
  catalogRevision : UInt64
  policyRevision : UInt64
  networkRevision : UInt64
  routeRevision : UInt64
  planRevision : UInt64
  deriving DecidableEq, Repr

structure ProjectionPermitReply where
  requestId : UInt64
  context : Option Context
  binding : Option PermitBinding
  receipt : Bytes
  cacheTtlMs : Nat
  deriving DecidableEq, Repr

structure PermitValidationReply where
  requestId : UInt64
  expiresMs : UInt64
  cacheTtlMs : Nat
  deriving DecidableEq, Repr

structure CheckedPermit where
  wire : ProjectionPermitReply
  /-- The binding of `wire`, which was there when it was checked. -/
  binding : PermitBinding
  checkedMs : UInt64
  begun : Nat
  expiresMs : UInt64
  signedExpiresMs : UInt64
  deriving DecidableEq, Repr

structure Pin where
  issuer : Bytes
  epoch : UInt64
  key : Bytes
  deriving DecidableEq, Repr

/-- The receipt library: the digest of what a receipt is bound to, the expiry that a
    verified receipt claims, and SHA-256. -/
structure Receipts where
  digest : Context → PermitBinding → Option Bytes
  verify : Bytes → Bytes → Bytes → UInt64 → Option UInt64
  sha256 : Bytes → Bytes

variable (receipts : Receipts)

/-- The comparisons of `Pin::verify` before the signature. -/
def Pin.agrees (pin : Pin) (requestId : UInt64) (resource action : Bytes)
    (minimumRevision networkFloor : UInt64) (receipt : CheckedServiceReceipt)
    (wire : ProjectionPermitReply) (context : Context) (identity : Identity) (p : PermitBinding)
    (now : UInt64) (instant : Nat) : Bool :=
  wire.requestId == requestId && wire.cacheTtlMs == 0 && context.issuerRef == pin.issuer &&
    context.keyEpoch == pin.epoch && context.identityAuthorityEpoch == receipt.identityEpoch &&
    identity.subjectRef == receipt.subject && identity.kind == 2 && identity.aal == 0 &&
    identity.revision == receipt.revision &&
    identity.credentialGeneration == receipt.credentialGeneration &&
    context.service == receipt.service && context.audience == receipt.audience &&
    context.requestSha256 == receipt.requestSha256 && p.resource == resource &&
    p.action == action && decide (minimumRevision ≤ p.policyRevision) &&
    p.catalogRevision == p.policyRevision && decide (networkFloor ≤ p.networkRevision) &&
    p.authenticationReceiptSha256 == receipts.sha256 receipt.authentication.bytes &&
    receipt.authentication.validAt now instant

/-- `Pin::verify`. The instant is read twice: by the check of the authentication, and
    when the permit is made. -/
def Pin.verify (pin : Pin) (requestId : UInt64) (resource action : Bytes)
    (minimumRevision networkFloor : UInt64) (receipt : CheckedServiceReceipt)
    (wire : ProjectionPermitReply) (now : UInt64) (instant begun : Nat) :
    Option CheckedPermit := do
  let context ← wire.context
  let identity ← context.identity
  let p ← wire.binding
  guard (pin.agrees receipts requestId resource action minimumRevision networkFloor receipt wire
    context identity p now instant)
  guard (p.authenticationReceiptSha256.length = 32)
  let binding ← receipts.digest context p
  let expiresMs ← receipts.verify pin.key wire.receipt binding now
  guard (expiresMs ≤ receipt.authentication.expiresMs)
  return ⟨wire, p, now, begun, expiresMs, expiresMs⟩

namespace CheckedPermit

def validAt (permit : CheckedPermit) (now : UInt64) (instant : Nat) : Bool :=
  Projection.validAt permit.checkedMs permit.begun permit.expiresMs now instant

def acceptOwnerReply (permit : CheckedPermit) (requestId : UInt64) (reply : PermitValidationReply)
    (now : UInt64) (instant : Nat) : Option CheckedPermit :=
  if reply.requestId ≠ requestId ∨ reply.cacheTtlMs ≠ 0 ∨ permit.validAt now instant = false ∨
      reply.expiresMs ≤ now ∨ permit.expiresMs < reply.expiresMs then none
  else some { permit with expiresMs := reply.expiresMs }

end CheckedPermit

/-- A reply of the owner, with the request it is for and the clocks. -/
structure OwnerReply where
  requestId : UInt64
  reply : PermitValidationReply
  now : UInt64
  instant : Nat
  deriving DecidableEq, Repr

/-- A refused reply returns an error and leaves the permit as it is. -/
def CheckedPermit.receive (permit : CheckedPermit) (r : OwnerReply) : CheckedPermit :=
  (permit.acceptOwnerReply r.requestId r.reply r.now r.instant).getD permit

/-! ## Credentials -/

/-- `u64::min`. -/
def earlier (a b : UInt64) : UInt64 := if a ≤ b then a else b

theorem earlier_le_right (a b : UInt64) : earlier a b ≤ b := by
  unfold earlier
  split
  · assumption
  · exact UInt64.le_refl b

structure ProjectionReply where
  requestId : UInt64
  service : Bytes
  audience : Bytes
  requestSha256 : Bytes
  planRevision : UInt64
  expiresMs : UInt64
  headerName : Bytes
  headerValue : Bytes
  deriving DecidableEq, Repr

structure Credential where
  name : Bytes
  value : Bytes
  checkedMs : UInt64
  started : Nat
  expiresMs : UInt64
  deriving DecidableEq, Repr

/-- A bearer token: allowed bytes, then padding. -/
def validToken (token : Bytes) : Bool :=
  let body := token.rdropWhile (· == 61)
  !body.isEmpty && body.all fun b => isAsciiAlphanumeric b || (ascii "-._~+/").contains b

/-- The value fits the header it is for. -/
def validSlot (name value subject : Bytes) : Bool :=
  if name = ascii "authorization" then (stripPrefix (ascii "Bearer ") value).any validToken
  else name = ascii "x-hopae-subject" && value = subject

/-- `HeaderValue::from_bytes`. -/
def validHeaderValue (value : Bytes) : Bool := value.all fun b => (32 ≤ b && b != 127) || b == 9

namespace Credential

/-- `Credential::check`. The permit and the authentication read the instant, and so does
    the new credential. -/
def check (reply : ProjectionReply) (id : UInt64) (receipt : CheckedServiceReceipt)
    (permit : CheckedPermit) (now : UInt64) (instant started : Nat) : Option Credential := do
  guard (reply.requestId = id ∧ reply.service = receipt.service ∧
    reply.audience = receipt.audience ∧ reply.requestSha256 = receipt.requestSha256 ∧
    reply.planRevision = permit.binding.planRevision ∧ now < reply.expiresMs ∧
    reply.expiresMs ≤ permit.signedExpiresMs ∧ permit.validAt now instant = true ∧
    receipt.authentication.validAt now instant = true ∧ reply.headerValue ≠ [] ∧
    reply.headerValue.length ≤ 4103)
  guard (validSlot reply.headerName reply.headerValue receipt.subject = true)
  guard (validHeaderValue reply.headerValue = true)
  let name ← headerName reply.headerName
  return ⟨name, reply.headerValue, now, started, earlier reply.expiresMs permit.expiresMs⟩

def validAt (credential : Credential) (now : UInt64) (instant : Nat) : Bool :=
  Projection.validAt credential.checkedMs credential.started credential.expiresMs now instant

def header (credential : Credential) (now : UInt64) (instant : Nat) : Option (Bytes × Bytes) :=
  if credential.validAt now instant && validHeaderValue credential.value then
    some (credential.name, credential.value)
  else none

end Credential

/-! ## Dispatch -/

/-- `native_resource::Observation`; of the reply only the verdict is read. -/
structure Observation where
  credential : Option Credential
  permit : Option CheckedPermit
  receipt : CheckedServiceReceipt
  allow : Bool

/-- The end of `observe_after_preliminary`: the credential is made from the permit that is
    kept. -/
def project (reply : ProjectionReply) (id : UInt64) (receipt : CheckedServiceReceipt)
    (permit : CheckedPermit) (now : UInt64) (instant started : Nat) : Option Observation :=
  (Credential.check reply id receipt permit now instant started).map fun credential =>
    ⟨some credential, some permit, receipt, true⟩

namespace Observation

/-- `install_credential`: the header that is inserted, if any; an expired credential is an
    error. -/
def installCredential (o : Observation) (now : UInt64) (instant : Nat) :
    Option (Option (Bytes × Bytes)) :=
  match o.credential with
  | none => some none
  | some credential => (credential.header now instant).map some

/-- `local_fences_hold`, which reads the instant for each of the three. -/
def localFencesHold (o : Observation) (observationCurrent : Bool) (now : UInt64)
    (credentialAt permitAt receiptAt : Nat) : Bool :=
  o.allow && (o.credential.all fun credential => credential.validAt now credentialAt) &&
    (o.permit.all fun permit => permit.validAt now permitAt) &&
    o.receipt.authentication.validAt now receiptAt && observationCurrent

end Observation

/-! ## Permits over time -/

theorem verify_eq_some {pin : Pin} {requestId : UInt64} {resource action : Bytes}
    {minimumRevision networkFloor : UInt64} {receipt : CheckedServiceReceipt}
    {wire : ProjectionPermitReply} {now : UInt64} {instant begun : Nat} {permit : CheckedPermit}
    (h : pin.verify receipts requestId resource action minimumRevision networkFloor receipt wire
      now instant begun = some permit) :
    permit.expiresMs = permit.signedExpiresMs ∧ permit.checkedMs = now ∧ permit.begun = begun ∧
      permit.expiresMs ≤ receipt.authentication.expiresMs := by
  unfold Pin.verify at h
  simp only [Option.bind_eq_bind, Option.bind_eq_some_iff, Option.guard_eq_some'] at h
  obtain ⟨_, -, _, -, _, -, _, -, _, -, _, -, expiresMs, -, _, hexpires, h⟩ := h
  cases h
  exact ⟨rfl, rfl, rfl, hexpires⟩

/-- **Step**: a reply shortens a permit or leaves it. -/
theorem receive_spec (permit : CheckedPermit) (r : OwnerReply) :
    (permit.receive r).expiresMs ≤ permit.expiresMs ∧
      permit.receive r = { permit with expiresMs := (permit.receive r).expiresMs } ∧
      (permit.acceptOwnerReply r.requestId r.reply r.now r.instant = none →
        permit.receive r = permit) := by
  unfold CheckedPermit.receive CheckedPermit.acceptOwnerReply
  split
  · exact ⟨UInt64.le_refl _, rfl, fun _ => rfl⟩
  · next haccepted =>
    simp only [not_or] at haccepted
    refine ⟨UInt64.not_lt.mp haccepted.2.2.2.2, rfl, fun hnone => ?_⟩
    cases hnone

/-- **Run**: any replies. -/
theorem receive_foldl (permit : CheckedPermit) (replies : List OwnerReply) :
    (replies.foldl CheckedPermit.receive permit).expiresMs ≤ permit.expiresMs ∧
      replies.foldl CheckedPermit.receive permit =
        { permit with expiresMs := (replies.foldl CheckedPermit.receive permit).expiresMs } := by
  induction replies generalizing permit with
  | nil => exact ⟨UInt64.le_refl _, rfl⟩
  | cons r replies ih =>
    obtain ⟨hle, hsame, -⟩ := receive_spec permit r
    obtain ⟨hrest, hkept⟩ := ih (permit.receive r)
    refine ⟨UInt64.le_trans hrest hle, ?_⟩
    rw [List.foldl_cons, hkept, hsame]

/-- A credential ends with its permit. -/
theorem expiresMs_of_check {reply : ProjectionReply} {id now : UInt64}
    {receipt : CheckedServiceReceipt} {permit : CheckedPermit} {instant started : Nat}
    {credential : Credential}
    (h : Credential.check reply id receipt permit now instant started = some credential) :
    credential.expiresMs ≤ permit.expiresMs ∧ credential.checkedMs = now ∧
      credential.started = started := by
  unfold Credential.check at h
  simp only [Option.bind_eq_bind, Option.bind_eq_some_iff, Option.guard_eq_some'] at h
  obtain ⟨_, -, _, -, _, -, _, -, h⟩ := h
  cases h
  exact ⟨earlier_le_right _ _, rfl, rfl⟩

/-- **Permit lifetimes only shrink.** For a verified permit and any replies of its owner:
    the expiry never grows, stays within the signed one and that of the authentication,
    and a refused reply changes nothing. A credential made after those replies is
    installed only while the wall clock and the time run since its check are both before
    the expiry of the permit, and dispatched only while the time run since the permit was
    verified is. -/
theorem permit_lifetime_antitone {pin : Pin} {requestId : UInt64} {resource action : Bytes}
    {minimumRevision networkFloor : UInt64} {receipt : CheckedServiceReceipt}
    {wire : ProjectionPermitReply} {now : UInt64} {instant begun : Nat} {permit : CheckedPermit}
    (hverify : pin.verify receipts requestId resource action minimumRevision networkFloor receipt
      wire now instant begun = some permit) (replies : List OwnerReply) :
    let permit' := replies.foldl CheckedPermit.receive permit
    permit'.expiresMs ≤ permit.signedExpiresMs ∧ permit'.signedExpiresMs = permit.signedExpiresMs ∧
      permit'.expiresMs ≤ receipt.authentication.expiresMs ∧
      (∀ r, (permit'.receive r).expiresMs ≤ permit'.expiresMs ∧
        (permit'.acceptOwnerReply r.requestId r.reply r.now r.instant = none →
          permit'.receive r = permit')) ∧
      ∀ reply id receipt' checked readAt started o,
        project reply id receipt' permit' checked readAt started = some o →
        (∀ wall mono, o.installCredential wall mono ≠ none → wall < permit'.expiresMs ∧
          checked.toNat + (mono - started) < permit'.expiresMs.toNat) ∧
        ∀ observed wall credentialAt permitAt receiptAt,
          o.localFencesHold observed wall credentialAt permitAt receiptAt = true →
          wall < permit'.expiresMs ∧
            now.toNat + (permitAt - begun) < permit'.expiresMs.toNat := by
  intro permit'
  obtain ⟨hsigned, hchecked, hbegun, hauthentication⟩ := verify_eq_some receipts hverify
  obtain ⟨hle, hkept⟩ := receive_foldl permit replies
  obtain ⟨hsigned', hchecked', hbegun'⟩ : permit'.signedExpiresMs = permit.signedExpiresMs ∧
      permit'.checkedMs = now ∧ permit'.begun = begun := by
    rw [show permit' = _ from hkept]
    exact ⟨rfl, hchecked, hbegun⟩
  refine ⟨hsigned ▸ hle, hsigned', UInt64.le_trans hle hauthentication, fun r => ?_, ?_⟩
  · obtain ⟨hstep, -, hrefused⟩ := receive_spec permit' r
    exact ⟨hstep, hrefused⟩
  · intro reply id receipt' checked readAt started o hproject
    obtain ⟨credential, hcheck, rfl⟩ := Option.map_eq_some_iff.mp hproject
    refine ⟨fun wall mono husable => ?_, fun observed wall _ permitAt _ hfence => ?_⟩
    · -- a credential inherits the expiry that the permit has when it is made
      obtain ⟨hexpires, rfl, rfl⟩ := expiresMs_of_check hcheck
      have hvalid : credential.validAt wall mono = true := by
        unfold Observation.installCredential Credential.header at husable
        dsimp only at husable
        split at husable
        · next h => exact (Bool.and_eq_true_iff.mp h).1
        · exact absurd rfl husable
      obtain ⟨hwall, hmono⟩ := lt_of_validAt hvalid
      exact ⟨UInt64.lt_of_lt_of_le hwall hexpires,
        Nat.lt_of_lt_of_le hmono (UInt64.le_iff_toNat_le.mp hexpires)⟩
    · -- the fence judges by the clock that was started when the permit was verified
      have hvalid : permit'.validAt wall permitAt = true := by
        simp only [Observation.localFencesHold, Bool.and_eq_true, Option.all_some] at hfence
        exact hfence.1.1.2
      have hlt := lt_of_validAt hvalid
      rwa [hchecked', hbegun'] at hlt

/-! ## A permit that is shortened -/

/-- Receipts that claim an expiry of 1000 and are bound to nothing. -/
def plainReceipts : Receipts where
  digest _ _ := some []
  verify _ _ _ _ := some 1000
  sha256 _ := List.replicate 32 0

def serviceReceipt : CheckedServiceReceipt where
  issuer := []
  keyEpoch := 1
  identityEpoch := []
  service := ascii "orders"
  audience := []
  requestSha256 := []
  authentication := ⟨90, 0, [], 2000⟩
  subject := ascii "svc"
  revision := 1
  credentialGeneration := 1

def permitReply : ProjectionPermitReply where
  requestId := 7
  context := some ⟨[], 1, [], some ⟨ascii "svc", 2, 0, 1, 1⟩, ascii "orders", [], []⟩
  binding := some ⟨List.replicate 32 0, [], ascii "r", ascii "read", [], 1, 1, 1, 1, 1⟩
  receipt := []
  cacheTtlMs := 0

/-- The owner shortens the permit to 500, and then tries to extend it. -/
def ownerReplies : List OwnerReply := [⟨8, ⟨8, 500, 0⟩, 110, 10⟩, ⟨9, ⟨9, 900, 0⟩, 120, 20⟩]

def projectionReply : ProjectionReply :=
  ⟨7, ascii "orders", [], [], 1, 800, ascii "authorization", ascii "Bearer t"⟩

/-- The wall clock is set back to the time of the check before the credential is made, 290 ms
    later. At 600 the credential can still be installed; the dispatch is refused. -/
theorem permit_lifetime_antitone_shortened :
    ∃ permit o, Pin.verify plainReceipts ⟨[], 1, []⟩ 7 (ascii "r") (ascii "read") 1 1
        serviceReceipt permitReply 100 10 10 = some permit ∧
      project projectionReply 7 serviceReceipt (ownerReplies.foldl CheckedPermit.receive permit) 100
        300 300 = some o ∧
      o.localFencesHold true 100 350 350 350 = true ∧ 100 + (350 - 10) < 500 ∧
      o.installCredential 100 600 ≠ none ∧ o.localFencesHold true 100 600 600 600 = false := by
  obtain ⟨permit, o, hverify, hproject, hexpires, hfence, hrest⟩ : ∃ permit o,
      Pin.verify plainReceipts ⟨[], 1, []⟩ 7 (ascii "r") (ascii "read") 1 1 serviceReceipt
        permitReply 100 10 10 = some permit ∧
      project projectionReply 7 serviceReceipt (ownerReplies.foldl CheckedPermit.receive permit) 100
        300 300 = some o ∧
      (ownerReplies.foldl CheckedPermit.receive permit).expiresMs = 500 ∧
      o.localFencesHold true 100 350 350 350 = true ∧
      o.installCredential 100 600 ≠ none ∧ o.localFencesHold true 100 600 600 600 = false :=
    ⟨_, _, rfl, rfl, rfl, by decide +kernel, by decide +kernel, by decide +kernel⟩
  have hlt := (((permit_lifetime_antitone plainReceipts hverify ownerReplies).2.2.2.2 _ _ _ _ _ _ o
    hproject).2 true 100 350 350 350 hfence).2
  rw [hexpires] at hlt
  exact ⟨permit, o, hverify, hproject, hfence, hlt, hrest⟩

end Projection
