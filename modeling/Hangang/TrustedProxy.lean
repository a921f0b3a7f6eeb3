import Hangang.Framework.Http
import Hangang.Framework.IpAddr
import Hangang.Framework.Except
import Hangang.Framework.Utf8

/-! # Trusted Proxies

    The client address that trusted proxies report. Each proxy appends the address it
    was called from to `X-Forwarded-For`, so only the end of the chain, down to the
    last hop that is not trusted, was written by someone to believe. What a client puts
    in front of its own address has no effect. Which addresses a network contains is a
    parameter. -/

open Bytes Except Http

namespace TrustedProxy

def maxForwardedHops : Nat := 256

structure InvalidForwardedHeader where
  deriving DecidableEq, Repr

section selection

variable {Network : Type} (contains : Network → IpAddr → Bool)

def isTrusted (ip : IpAddr) (trusted : List Network) : Bool :=
  trusted.any fun network => contains network ip.toCanonical

/-- The turn of the inner loop. -/
def pushHop (forwarded : List IpAddr) (item : Bytes) :
    Except InvalidForwardedHeader (List IpAddr) :=
  if (Utf8.trim item).isEmpty || forwarded.length == maxForwardedHops then .error ⟨⟩
  else ((IpAddr.parse (Utf8.trim item)).map fun ip => forwarded ++ [ip.toCanonical]).elim
    (.error ⟨⟩) .ok

/-- The turn of the outer loop. -/
def pushValue (forwarded : List IpAddr) (value : Bytes) :
    Except InvalidForwardedHeader (List IpAddr) :=
  (toStr value).elim (.error ⟨⟩) fun text => (splitOn 44 text).foldlM pushHop forwarded

/-- `client_ip_from_forwarded`. -/
def clientIpFromForwarded (peer : IpAddr) (headers : HeaderMap) (trusted : List Network) :
    Except InvalidForwardedHeader IpAddr := do
  let forwarded ← (headers.getAll (ascii "x-forwarded-for")).foldlM pushValue []
  return (forwarded.reverse.find? fun ip => !isTrusted contains ip trusted).getD
    (forwarded.head?.getD peer.toCanonical)

/-! ## Chains -/

/-- The fields spell this chain of addresses, over any number of lines. -/
def Spells (headers : HeaderMap) (hops : List IpAddr) : Prop :=
  (∀ value ∈ headers.getAll (ascii "x-forwarded-for"), toStr value = some value) ∧
    ((headers.getAll (ascii "x-forwarded-for")).flatMap (splitOn 44)).map
      (fun item => IpAddr.parse (Utf8.trim item)) = hops.map some

variable {contains}

@[simp] theorem isTrusted_toCanonical (ip : IpAddr) (trusted : List Network) :
    isTrusted contains ip.toCanonical trusted = isTrusted contains ip trusted := by
  rw [isTrusted, isTrusted, IpAddr.toCanonical_toCanonical]

/-- No address is spelled by nothing. -/
theorem trim_ne_nil {item : Bytes} {ip : IpAddr} (h : IpAddr.parse (Utf8.trim item) = some ip) :
    (Utf8.trim item).isEmpty = false := by
  cases htrim : Utf8.trim item with
  | nil =>
    rw [htrim] at h
    cases h
  | cons b rest => rfl

/-- The lines are read like one list of items. -/
theorem foldlM_pushValue {values : List Bytes} (h : ∀ value ∈ values, toStr value = some value)
    (forwarded : List IpAddr) :
    values.foldlM pushValue forwarded = (values.flatMap (splitOn 44)).foldlM pushHop forwarded := by
  induction values generalizing forwarded with
  | nil => rfl
  | cons value values ih =>
    have hvalue : pushValue forwarded value = (splitOn 44 value).foldlM pushHop forwarded := by
      rw [pushValue, h value List.mem_cons_self]
      rfl
    rw [List.foldlM_cons, List.flatMap_cons, List.foldlM_append, hvalue]
    congr 1
    funext forwarded'
    exact ih (fun v hv => h v (List.mem_cons_of_mem value hv)) forwarded'

/-- A chain that fits is read to its end. -/
theorem foldlM_pushHop {items : List Bytes} {hops forwarded : List IpAddr}
    (hitems : items.map (fun item => IpAddr.parse (Utf8.trim item)) = hops.map some)
    (hlength : forwarded.length + hops.length ≤ maxForwardedHops) :
    items.foldlM pushHop forwarded = .ok (forwarded ++ hops.map IpAddr.toCanonical) := by
  induction items generalizing hops forwarded with
  | nil =>
    obtain rfl := List.map_eq_nil_iff.mp hitems.symm
    simp [pure, Except.pure]
  | cons item items ih =>
    cases hops with
    | nil => cases hitems
    | cons ip hops =>
      rw [List.map_cons, List.map_cons, List.cons.injEq] at hitems
      obtain ⟨hparse, hitems⟩ := hitems
      rw [List.length_cons] at hlength
      have hroom : (forwarded.length == maxForwardedHops) = false := by
        rw [beq_eq_false_iff_ne]
        omega
      have hpush : pushHop forwarded item = .ok (forwarded ++ [ip.toCanonical]) := by
        simp [pushHop, trim_ne_nil hparse, hroom, hparse]
      rw [List.foldlM_cons, hpush, ok_bind, ih hitems]
      · simp
      · rw [List.length_append, List.length_singleton]
        omega

/-- **The last hop that is not trusted** is selected, whatever comes before it. -/
theorem clientIpFromForwarded_eq {headers : HeaderMap} {before after : List IpAddr} {ip : IpAddr}
    (peer : IpAddr) {trusted : List Network} (h : Spells headers (before ++ ip :: after))
    (hlength : (before ++ ip :: after).length ≤ maxForwardedHops)
    (hip : isTrusted contains ip trusted = false)
    (hafter : ∀ hop ∈ after, isTrusted contains hop trusted = true) :
    clientIpFromForwarded contains peer headers trusted = .ok ip.toCanonical := by
  have hread : (headers.getAll (ascii "x-forwarded-for")).foldlM pushValue [] =
      .ok ((before ++ ip :: after).map IpAddr.toCanonical) := by
    rw [foldlM_pushValue h.1, foldlM_pushHop h.2 (by simpa using hlength), List.nil_append]
  have hskipped : (after.map IpAddr.toCanonical).reverse.find?
      (fun ip => !isTrusted contains ip trusted) = none := by
    rw [List.find?_eq_none]
    intro canonical hcanonical
    obtain ⟨hop, hmem, rfl⟩ := List.mem_map.mp (List.mem_reverse.mp hcanonical)
    simp [hafter hop hmem]
  rw [clientIpFromForwarded, hread, ok_bind]
  simp [List.find?_append, hskipped, hip, pure, Except.pure]

/-- The last element that fails a test. -/
theorem exists_last {α : Type} {p : α → Bool} {xs : List α} (h : ∃ x ∈ xs, p x = false) :
    ∃ before x after, xs = before ++ x :: after ∧ p x = false ∧ ∀ y ∈ after, p y = true := by
  induction xs with
  | nil =>
    obtain ⟨x, hx, -⟩ := h
    cases hx
  | cons x xs ih =>
    by_cases hrest : ∃ y ∈ xs, p y = false
    · obtain ⟨before, y, after, rfl, hy, hafter⟩ := ih hrest
      exact ⟨x :: before, y, after, rfl, hy, hafter⟩
    · refine ⟨[], x, xs, rfl, ?_, fun y hy => by simpa using fun hp => hrest ⟨y, hy, hp⟩⟩
      obtain ⟨y, hy, hp⟩ := h
      rcases List.mem_cons.mp hy with rfl | hy
      · exact hp
      · exact absurd ⟨y, hy, hp⟩ hrest

/-- **Prepended hops and other lines change nothing.** A chain with a hop that is not
    trusted, in one spelling or in any other, with any further hops in front of it: the
    client is the last hop that is not trusted, in canonical form. -/
theorem forwarded_spoof_resistant (contains : Network → IpAddr → Bool)
    (trusted : List Network) (peer : IpAddr)
    {headers headers' : HeaderMap} {hops further : List IpAddr} (h : Spells headers hops)
    (h' : Spells headers' (further ++ hops)) (hlength : (further ++ hops).length ≤ maxForwardedHops)
    (huntrusted : ∃ hop ∈ hops, isTrusted contains hop trusted = false) :
    ∃ before ip after, hops = before ++ ip :: after ∧ isTrusted contains ip trusted = false ∧
      (∀ hop ∈ after, isTrusted contains hop trusted = true) ∧
      clientIpFromForwarded contains peer headers trusted = .ok ip.toCanonical ∧
      clientIpFromForwarded contains peer headers' trusted = .ok ip.toCanonical := by
  obtain ⟨before, ip, after, rfl, hip, hafter⟩ := exists_last huntrusted
  rw [← List.append_assoc] at h' hlength
  have hshort : (before ++ ip :: after).length ≤ maxForwardedHops := by
    simp only [List.length_append] at hlength ⊢
    omega
  exact ⟨before, ip, after, rfl, hip, hafter,
    clientIpFromForwarded_eq peer h hshort hip hafter,
    clientIpFromForwarded_eq peer h' hlength hip hafter⟩

end selection

/-! ## A chain on two lines -/

/-- The fields with these `X-Forwarded-For` lines and no others. -/
def forwardedFor (value : Bytes) (values : List Bytes) : HeaderMap where
  entries := [(ascii "x-forwarded-for", value :: values)]
  nodup := by simp
  nonempty := by simp

/-- The addresses of `10.0.0.0/8`, for 10. -/
def privateNetwork (first : UInt8) : IpAddr → Bool
  | .v4 octets => octets.1 = first
  | .v6 _ => false

/-- The client writes a line of its own before the proxies append theirs. -/
theorem forwarded_spoof_resistant_two_lines :
    clientIpFromForwarded privateNetwork (.v4 (127, 0, 0, 1))
        (forwardedFor (ascii "198.51.100.1") [ascii "203.0.113.7, ::ffff:10.0.0.9"])
        [10] = .ok (.v4 (203, 0, 113, 7)) ∧
      ∃ before ip after, [IpAddr.v4 (203, 0, 113, 7), .v6 [0, 0, 0, 0, 0, 0xFFFF, 0x0A00, 9]] =
          before ++ ip :: after ∧ isTrusted privateNetwork ip [10] = false ∧
        (∀ hop ∈ after, isTrusted privateNetwork hop [10] = true) ∧
        clientIpFromForwarded privateNetwork (.v4 (127, 0, 0, 1))
          (forwardedFor (ascii "203.0.113.7, ::ffff:10.0.0.9") []) [10] =
          .ok ip.toCanonical ∧
        clientIpFromForwarded privateNetwork (.v4 (127, 0, 0, 1))
          (forwardedFor (ascii "198.51.100.1") [ascii "203.0.113.7, ::ffff:10.0.0.9"])
          [10] = .ok ip.toCanonical := by
  have hshort : Spells (forwardedFor (ascii "203.0.113.7, ::ffff:10.0.0.9") [])
      [.v4 (203, 0, 113, 7), .v6 [0, 0, 0, 0, 0, 0xFFFF, 0x0A00, 9]] := by
    unfold Spells
    decide +kernel
  have hlong : Spells (forwardedFor (ascii "198.51.100.1") [ascii "203.0.113.7, ::ffff:10.0.0.9"])
      ([.v4 (198, 51, 100, 1)] ++
        [.v4 (203, 0, 113, 7), .v6 [0, 0, 0, 0, 0, 0xFFFF, 0x0A00, 9]]) := by
    unfold Spells
    decide +kernel
  refine ⟨by decide +kernel, ?_⟩
  exact forwarded_spoof_resistant privateNetwork [10] (.v4 (127, 0, 0, 1)) hshort hlong (by decide)
    (by decide +kernel)

end TrustedProxy
