import Hangang.Framework.Framing
import Hangang.Proxy.Headers

/-! # Request Seals

    A seal is a digest of a request's method, target and header fields, made before a
    credential is projected into one of two slots. The check of the final request
    leaves out the slots and the framing fields, and has rules of its own for them. The
    digested string tells its components apart, so two requests with one digest agree
    field by field. -/

open Bytes Except Http

namespace NativeHuman

/-- A request without its body. The target is given by its text. -/
structure Head where
  method : Bytes
  uri : Bytes
  headers : HeaderMap
  deriving DecidableEq, Repr

structure Seal where
  hash : Bytes
  length : Nat
  deriving DecidableEq, Repr

/-- The slots a credential may be projected into. -/
def slots : List Bytes := [ascii "authorization", ascii "x-hopae-subject"]

/-- What the digest leaves out. -/
def excluded : List Bytes := slots ++ [ascii "content-length", ascii "transfer-encoding"]

/-- The order of `str::cmp`. -/
def nameLe (a b : Bytes) : Bool := decide (a ≤ b)

/-- The names that are digested, sorted. -/
def sealedNames (headers : HeaderMap) : List Bytes :=
  (headers.keys.filter fun name => name ∉ excluded).mergeSort nameLe

/-- The components of one name. -/
def nameFields (headers : HeaderMap) (name : Bytes) : List Bytes :=
  name :: beBytes 4 (headers.getAll name).length :: headers.getAll name

/-- The components in the order they are hashed. -/
def sealFields (head : Head) : List Bytes :=
  head.method :: head.uri :: beBytes 4 (sealedNames head.headers).length ::
    (sealedNames head.headers).flatMap (nameFields head.headers)

/-- `u32::try_from`, which fails with one message everywhere. -/
def ensureU32 (n : Nat) : Except String Unit :=
  ensure (n < 256 ^ 4) "out of range integral type conversion attempted"

/-- What is hashed. -/
def sealInput (head : Head) : Bytes :=
  ascii "hangang-human-final-headers-v1" ++ [0] ++ (sealFields head).flatMap (lengthPrefixed 4)

variable (sha256 : Bytes → Bytes)

def Seal.digest (head : Head) : Except String Bytes := do
  ensure (head.headers.getAll (ascii "host") = [] ∧ head.headers.getAll (ascii "cookie") = [])
    "Human Host/cookie not isolated"
  (sealFields head).forM fun field => ensureU32 field.length
  ensureU32 (sealedNames head.headers).length
  (sealedNames head.headers).forM fun name => ensureU32 (head.headers.getAll name).length
  return sha256 (sealInput head)

def Seal.new (head : Head) (body : Bytes) : Except String Seal := do
  ensure (∀ slot ∈ slots, head.headers.getAll slot = []) "Human input credential not stripped"
  let hash ← Seal.digest sha256 head
  return ⟨hash, body.length⟩

def Seal.check (sealed : Seal) (head : Head) (slot : Bytes) : Except String Unit := do
  ensure (slot ∈ slots) "Human projection slot refused"
  ensure ((head.headers.getAll slot).length = 1) "Human projected credential cardinality changed"
  slots.forM fun name => ensure (name = slot ∨ head.headers.getAll name = [])
    "unexpected Human credential slot"
  ensure (head.headers.getAll (ascii "content-length") = [Proxy.decimal sealed.length] ∧
    head.headers.getAll (ascii "transfer-encoding") = []) "Human final framing changed"
  let hash ← Seal.digest sha256 head
  ensure (sealed.hash = hash) "Human final routing headers changed"

/-! ## What a digest determines -/

/-- A head whose lengths and counts are written in full. -/
structure Measured (head : Head) : Prop where
  fields : ∀ field ∈ sealFields head, field.length < 256 ^ 4
  names : (sealedNames head.headers).length < 256 ^ 4
  values : ∀ name ∈ sealedNames head.headers, (head.headers.getAll name).length < 256 ^ 4

theorem digest_eq_ok {head : Head} {hash : Bytes} (h : Seal.digest sha256 head = .ok hash) :
    Measured head ∧ hash = sha256 (sealInput head) := by
  unfold Seal.digest at h
  rw [bind_eq_ok] at h
  obtain ⟨_, -, h⟩ := h
  rw [bind_eq_ok] at h
  obtain ⟨_, hfields, h⟩ := h
  rw [bind_eq_ok] at h
  obtain ⟨_, hnames, h⟩ := h
  rw [bind_eq_ok] at h
  obtain ⟨_, hvalues, h⟩ := h
  refine ⟨⟨?_, ensure_eq_ok.mp hnames, ?_⟩, (Except.ok.inj h).symm⟩
  · exact fun field hmem => ensure_eq_ok.mp (forM_eq_ok.mp hfields field hmem)
  · exact fun name hmem => ensure_eq_ok.mp (forM_eq_ok.mp hvalues name hmem)

theorem mem_sealedNames {headers : HeaderMap} {name : Bytes} :
    name ∈ sealedNames headers ↔ name ∈ headers.keys ∧ name ∉ excluded := by
  rw [sealedNames, List.mem_mergeSort]
  simp

/-- The names and their values can be read back from the components. -/
theorem flatMap_nameFields_inj {a b : HeaderMap} {names names' : List Bytes}
    (hcount : names.length = names'.length)
    (ha : ∀ name ∈ names, (a.getAll name).length < 256 ^ 4)
    (hb : ∀ name ∈ names', (b.getAll name).length < 256 ^ 4)
    (h : names.flatMap (nameFields a) = names'.flatMap (nameFields b)) :
    names = names' ∧ ∀ name ∈ names, a.getAll name = b.getAll name := by
  induction names generalizing names' with
  | nil =>
    obtain rfl := List.length_eq_zero_iff.mp hcount.symm
    exact ⟨rfl, by simp⟩
  | cons name names ih =>
    cases names' with
    | nil => cases hcount
    | cons name' names' =>
      simp only [List.flatMap_cons, nameFields, List.cons_append, List.cons.injEq] at h
      obtain ⟨rfl, hlength, h⟩ := h
      have hsame : (a.getAll name).length = (b.getAll name).length :=
        beBytes_inj_of_lt (ha name List.mem_cons_self) (hb name List.mem_cons_self) hlength
      obtain ⟨hvalues, hrest⟩ := List.append_inj h hsame
      obtain ⟨rfl, hothers⟩ := ih (Nat.succ.inj hcount)
        (fun n hn => ha n (List.mem_cons_of_mem _ hn))
        (fun n hn => hb n (List.mem_cons_of_mem _ hn)) hrest
      refine ⟨rfl, fun n hn => ?_⟩
      rcases List.mem_cons.mp hn with rfl | hn
      · exact hvalues
      · exact hothers n hn

/-- The heads agree on everything that is digested. -/
structure SameSealed (a b : Head) : Prop where
  method : a.method = b.method
  uri : a.uri = b.uri
  headers : ∀ name, name ∉ excluded → a.headers.getAll name = b.headers.getAll name

theorem sameSealed_of_sealFields {a b : Head} (ha : Measured a) (hb : Measured b)
    (h : sealFields a = sealFields b) : SameSealed a b := by
  unfold sealFields at h
  simp only [List.cons.injEq] at h
  obtain ⟨hmethod, huri, hcount, hrest⟩ := h
  obtain ⟨hnames, hvalues⟩ := flatMap_nameFields_inj (beBytes_inj_of_lt ha.names hb.names hcount)
    ha.values hb.values hrest
  refine ⟨hmethod, huri, fun name hname => ?_⟩
  by_cases hmem : name ∈ a.headers.keys
  · exact hvalues name (mem_sealedNames.mpr ⟨hmem, hname⟩)
  · -- a name that one head lacks the other lacks, too
    have hmem' : name ∉ b.headers.keys := by
      intro hb
      have := mem_sealedNames.mpr ⟨hb, hname⟩
      rw [← hnames] at this
      exact hmem (mem_sealedNames.mp this).1
    rw [a.headers.getAll_of_notMem hmem, b.headers.getAll_of_notMem hmem']

/-- **Seal integrity.** A final request that passes the check is the sealed one, with
    one credential in the declared slot and the framing of the sealed body, unless what is
    hashed of the two collides. -/
theorem seal_check_integrity {head final : Head} {body slot : Bytes} {sealed : Seal}
    (hsha256 : sha256 (sealInput head) = sha256 (sealInput final) →
      sealInput head = sealInput final)
    (hnew : Seal.new sha256 head body = .ok sealed)
    (hcheck : sealed.check sha256 final slot = .ok ()) :
    SameSealed head final ∧ slot ∈ slots ∧ (final.headers.getAll slot).length = 1 ∧
      (∀ name ∈ slots, name ≠ slot → final.headers.getAll name = []) ∧
      final.headers.getAll (ascii "content-length") = [Proxy.decimal body.length] ∧
      final.headers.getAll (ascii "transfer-encoding") = [] := by
  unfold Seal.new at hnew
  rw [bind_eq_ok] at hnew
  obtain ⟨_, -, hnew⟩ := hnew
  rw [bind_eq_ok] at hnew
  obtain ⟨hash, hdigest, hnew⟩ := hnew
  obtain rfl := Except.ok.inj hnew
  unfold Seal.check at hcheck
  rw [bind_eq_ok] at hcheck
  obtain ⟨_, hslot, hcheck⟩ := hcheck
  rw [bind_eq_ok] at hcheck
  obtain ⟨_, hone, hcheck⟩ := hcheck
  rw [bind_eq_ok] at hcheck
  obtain ⟨_, hothers, hcheck⟩ := hcheck
  rw [bind_eq_ok] at hcheck
  obtain ⟨_, hframing, hcheck⟩ := hcheck
  rw [bind_eq_ok] at hcheck
  obtain ⟨hash', hdigest', hsame⟩ := hcheck
  obtain ⟨hmeasured, hhash⟩ := digest_eq_ok sha256 hdigest
  obtain ⟨hmeasured', hhash'⟩ := digest_eq_ok sha256 hdigest'
  -- equal digests are those of equal inputs, and length prefixes make these equal fields
  have hinput := hsha256 (hhash.symm.trans ((ensure_eq_ok.mp hsame).trans hhash'))
  have hfields := flatMap_lengthPrefixed_injective (by decide) hmeasured.fields hmeasured'.fields
    (List.append_cancel_left hinput)
  refine ⟨sameSealed_of_sealFields hmeasured hmeasured' hfields, ensure_eq_ok.mp hslot,
    ensure_eq_ok.mp hone, ?_, ensure_eq_ok.mp hframing⟩
  intro name hname hne
  exact (ensure_eq_ok.mp (forM_eq_ok.mp hothers name hname)).resolve_left hne

/-! ## Completeness -/

/-- The order of the fields makes no difference to the names. -/
theorem sealedNames_congr {a b : HeaderMap}
    (h : ∀ name, name ∉ excluded → a.getAll name = b.getAll name) :
    sealedNames a = sealedNames b := by
  have hsorted : ∀ headers : HeaderMap,
      (sealedNames headers).Pairwise fun a b => nameLe a b = true := by
    intro headers
    apply List.pairwise_mergeSort
    · simp only [nameLe, decide_eq_true_eq]
      exact fun _ _ _ => List.le_trans
    · simp only [nameLe, Bool.or_eq_true, decide_eq_true_eq]
      exact List.le_total
  have hnodup : ∀ headers : HeaderMap, (sealedNames headers).Nodup := fun headers =>
    (List.mergeSort_perm _ _).nodup_iff.mpr (headers.nodup.filter _)
  apply List.Perm.eq_of_pairwise _ (hsorted a) (hsorted b)
  · rw [List.perm_ext_iff_of_nodup (hnodup a) (hnodup b)]
    intro name
    rw [mem_sealedNames, mem_sealedNames, a.mem_keys_iff, b.mem_keys_iff]
    exact and_congr_left fun hname => by rw [h name hname]
  · simp only [nameLe, decide_eq_true_eq]
    exact fun _ _ _ _ => List.le_antisymm

theorem SameSealed.digest {head final : Head} (h : SameSealed head final) {hash : Bytes}
    (hdigest : Seal.digest sha256 head = .ok hash) : Seal.digest sha256 final = .ok hash := by
  have hnames := sealedNames_congr h.headers
  have hvalues : ∀ name ∈ sealedNames head.headers,
      head.headers.getAll name = final.headers.getAll name :=
    fun name hname => h.headers name (mem_sealedNames.mp hname).2
  have hfields : sealFields head = sealFields final := by
    unfold sealFields
    rw [h.method, h.uri, ← hnames]
    simp only [List.flatMap]
    rw [List.map_congr_left fun name hname => by rw [nameFields, hvalues name hname, ← nameFields]]
  unfold Seal.digest sealInput at hdigest ⊢
  simp only [bind_eq_ok] at hdigest ⊢
  obtain ⟨_, hisolated, _, hlengths, _, hcount, _, hcounts, hhash⟩ := hdigest
  rw [← hfields, ← hnames, ← h.headers (ascii "host") (by decide),
    ← h.headers (ascii "cookie") (by decide)]
  refine ⟨(), hisolated, (), hlengths, (), hcount, (), ?_, hhash⟩
  rw [forM_eq_ok] at hcounts ⊢
  intro name hname
  rw [← hvalues name hname]
  exact hcounts name hname

/-- **A seal is not in the way.** The final request that has the sealed fields in any order, one
    credential in a slot and the framing of the sealed body passes the check, whatever the
    digest is. -/
theorem seal_check_complete {head final : Head} {body slot : Bytes} {sealed : Seal}
    (hnew : Seal.new sha256 head body = .ok sealed) (hsame : SameSealed head final)
    (hslot : slot ∈ slots) (hone : (final.headers.getAll slot).length = 1)
    (hothers : ∀ name ∈ slots, name ≠ slot → final.headers.getAll name = [])
    (hlength : final.headers.getAll (ascii "content-length") = [Proxy.decimal body.length])
    (hencoding : final.headers.getAll (ascii "transfer-encoding") = []) :
    sealed.check sha256 final slot = .ok () := by
  simp only [Seal.new, bind_eq_ok] at hnew
  obtain ⟨_, -, hash, hdigest, hnew⟩ := hnew
  obtain rfl := Except.ok.inj hnew
  simp only [Seal.check, bind_eq_ok]
  refine ⟨(), ensure_eq_ok.mpr hslot, (), ensure_eq_ok.mpr hone, (), ?_, (),
    ensure_eq_ok.mpr ⟨hlength, hencoding⟩, hash, hsame.digest sha256 hdigest,
    ensure_eq_ok.mpr rfl⟩
  rw [forM_eq_ok]
  intro name hname
  rw [ensure_eq_ok]
  exact or_iff_not_imp_left.mpr (hothers name hname)

/-- A request for `/` with one field, before the projection. -/
def plainHead : Head where
  method := ascii "GET"
  uri := ascii "http://a/"
  headers := ⟨[(ascii "accept", [ascii "*/*"])], by simp, by simp⟩

/-- The same with a credential and the framing of an empty body. -/
def projectedHead : Head where
  method := ascii "GET"
  uri := ascii "http://a/"
  headers := ⟨[(ascii "accept", [ascii "*/*"]), (ascii "authorization", [ascii "Bearer t"]),
    (ascii "content-length", [ascii "0"])], by decide +kernel, by simp⟩

/-- A digest that is SHA-256 for what is hashed of the two. -/
def plainSha256 (input : Bytes) : Bytes :=
  if input = sealInput plainHead then
    beBytes 32 0xc632710823cb5ca03e4453d1b16a6febf9f40997a003acee47dc83debb740fcd
  else []

def plainSeal : Seal := ⟨plainSha256 (sealInput plainHead), 0⟩

theorem plainSeal_new : Seal.new plainSha256 plainHead [] = .ok plainSeal := by decide +kernel

theorem seal_check_integrity_projectedHead :
    Seal.new plainSha256 plainHead [] = .ok plainSeal ∧
      plainSeal.check plainSha256 projectedHead (ascii "authorization") = .ok () ∧
      SameSealed plainHead projectedHead := by
  have hcheck : plainSeal.check plainSha256 projectedHead (ascii "authorization") = .ok () := by
    decide +kernel
  have hsha256 : plainSha256 (sealInput plainHead) = plainSha256 (sealInput projectedHead) →
      sealInput plainHead = sealInput projectedHead := by decide +kernel
  exact ⟨plainSeal_new, hcheck, (seal_check_integrity plainSha256 hsha256 plainSeal_new hcheck).1⟩

theorem seal_check_complete_projectedHead :
    Seal.new plainSha256 plainHead [] = .ok plainSeal ∧
      plainSeal.check plainSha256 projectedHead (ascii "authorization") = .ok () := by
  have hsame : SameSealed plainHead projectedHead := by
    refine ⟨rfl, rfl, fun name hname => ?_⟩
    have hslot : (name == ascii "authorization") = false := by
      simpa using fun heq => hname (by rw [heq]; decide)
    have hlength : (name == ascii "content-length") = false := by
      simpa using fun heq => hname (by rw [heq]; decide)
    simp [plainHead, projectedHead, HeaderMap.getAll, List.lookup_cons, hslot, hlength]
  exact ⟨plainSeal_new, seal_check_complete plainSha256 plainSeal_new hsame (by decide) (by decide)
    (by decide) (by decide) (by decide)⟩

end NativeHuman
