import Hangang.Guard.Client

/-! # Denials

    A decision that denies is answered with a rejection as long as it counts as a
    decision at all: when its budget is used up on arrival it is an unavailable
    one, and then the failure mode answers. -/

namespace Guard

variable {s : Shared} {query : Nat} {q : Query} {decision : Decision}

theorem getElem?_accepted (hquery : s.queries[query]? = some q) :
    (accepted s query decision).queries[query]? = some { q with reply := some decision } := by
  show (s.queries.modify query _)[query]? = _
  rw [List.getElem?_modify_eq, hquery]
  rfl

theorem queries_observe : (observe s decision).queries = s.queries := by
  unfold observe
  split
  · rfl
  · rfl

theorem cancelled_observe : (observe s decision).cancelled = s.cancelled := by
  unfold observe
  split
  · rfl
  · rfl

theorem readLifetime_fst {ttlMs : Nat} {reading : Option Nat}
    (hquery : s.queries[query]? = some q) :
    (readLifetime s query ttlMs reading).1 = (q.lifetime.remaining reading ttlMs).1 := by
  rw [readLifetime, hquery]

theorem readBudget_isSome {ttlMs : Nat} {reading : Option Nat}
    (hquery : s.queries[query]? = some q) :
    (readBudget s query ttlMs reading).1.isSome = true ↔ ttlMs = 0 ∨
      q.lifetime.failed = false ∧ ∃ elapsed, reading = some elapsed ∧ q.lifetime.last ≤ elapsed ∧
        elapsed < (ttlMs - 1) * nanosPerMs := by
  unfold readBudget
  split
  · next hpos =>
    rw [readLifetime_fst hquery, Lifetime.remaining_isSome]
    constructor
    · exact .inr
    · rintro (hzero | h)
      · omega
      · exact h
  · next hzero =>
    constructor
    · exact fun _ => .inl (by omega)
    · exact fun _ => rfl

/-- The answer to a decision that denies. -/
theorem complete_of_deny {config : Config} {ip : IpAddr} {kind : Option Kind}
    {reading : Nat → Option Nat} (hdeny : decision.action = .deny)
    (hnotOlder : notOlder s decision = true) (hlive : s.cancelled = false) :
    (complete config s ip kind query decision reading).2 =
      .answered (if (readBudget (observe (accepted s query decision) decision) query
        decision.ttlMs (reading query)).1.isSome then some 403 else config.failure) none := by
  have hnotOlder' : ¬ (!notOlder (accepted s query decision) decision) = true := by
    rw [show notOlder (accepted s query decision) decision = true from hnotOlder]
    exact Bool.false_ne_true
  have hlive' : ¬ (observe (accepted s query decision) decision).cancelled = true := by
    rw [cancelled_observe, show (accepted s query decision).cancelled = false from hlive]
    exact Bool.false_ne_true
  unfold complete
  dsimp only
  rw [if_neg hnotOlder', if_neg hlive']
  cases hleft : (readBudget (observe (accepted s query decision) decision) query
    decision.ttlMs (reading query)).1 with
  | none => rfl
  | some left => simp [hdeny]

/-- **Denials are rejections**, for as long as they are decisions. A reply is
    accepted that denies, with a revision that is not older than the newest observed
    one, while the guard is not cancelled. The request is rejected if and only if
    the failure mode denies, or the decision has no budget to use up, or its budget
    less one millisecond, counted from the start of the query by a clock that has
    not failed or gone back, has not been used up. -/
theorem deny_rejected_iff (config : Config) (s : Shared) (tid : Nat) (ip : IpAddr)
    (kind : Option Kind) (query : Nat) (q : Query) (reply : Reply) (reading : Nat → Option Nat)
    (decision : Decision) (hquery : s.queries[query]? = some q)
    (haccept : config.accept kind checkAdmission reply = some decision)
    (hdeny : decision.action = .deny) (hnotOlder : notOlder s decision = true)
    (hlive : s.cancelled = false) :
    ∃ s' rejection proof,
      (program config).advance tid s (.querying ip kind query) (.reply reply reading) =
        some (s', .answered rejection proof) ∧
      (rejection ≠ none ↔ config.failureMode = .deny ∨ decision.ttlMs = 0 ∨
        q.lifetime.failed = false ∧ ∃ elapsed, reading query = some elapsed ∧
          q.lifetime.last ≤ elapsed ∧ elapsed < (decision.ttlMs - 1) * nanosPerMs) := by
  have hadvance : (program config).advance tid s (.querying ip kind query)
      (.reply reply reading) = some (complete config s ip kind query decision reading) := by
    simp only [program, advance, haccept]
  -- accepting the reply leaves the clock of the query as it was
  have hquery' : (observe (accepted s query decision) decision).queries[query]? =
      some { q with reply := some decision } := by
    rw [queries_observe, getElem?_accepted hquery]
  refine ⟨(complete config s ip kind query decision reading).1, if (readBudget (observe
    (accepted s query decision) decision) query decision.ttlMs (reading query)).1.isSome
    then some 403 else config.failure, none, ?_, ?_⟩
  · rw [hadvance, ← complete_of_deny hdeny hnotOlder hlive]
  · rw [← readBudget_isSome hquery']
    split
    · next hsome => simp [hsome]
    · next hnone =>
      unfold Config.failure
      by_cases hmode : config.failureMode = .deny
      · simp [hmode]
      · simp [hmode, hnone]

/-! ## A slow reply -/

/-- Decisions over HTTP, with admission while there is none. -/
def openConfig (cacheMs : Nat) : Config := ⟨false, false, .query, .allow, cacheMs, [], []⟩

def visitor : IpAddr := .v4 (192, 0, 2, 1)

/-- The service denies for one second. -/
def denial : Decision := ⟨1, 7, .deny, .enforce, none, 1000⟩

/-- A request asks the service, whose reply comes after so many milliseconds. -/
def asks (tid : Nat) (decision : Decision) (ms : Nat) : List (Event Call Choice Unit) :=
  [.start (.admission visitor []), .step tid .go, .step tid (.start true),
    .step tid (.reply (.http decision) fun _ => some (ms * nanosPerMs))]

theorem deny_rejected_in_time : ∃ s' rejection proof,
    (program (openConfig 0)).advance 0 (startQuery 0 initial visitor).2 (.querying visitor none 0)
      (.reply (.http denial) fun _ => some (500 * nanosPerMs)) =
        some (s', .answered rejection proof) ∧ rejection ≠ none := by
  obtain ⟨s', rejection, proof, hadvance, hiff⟩ := deny_rejected_iff (openConfig 0)
    (startQuery 0 initial visitor).2 0 visitor none 0 ⟨.start, 0, visitor, none⟩ (.http denial)
    (fun _ => some (500 * nanosPerMs)) denial rfl rfl rfl rfl rfl
  refine ⟨s', rejection, proof, hadvance, hiff.mpr (.inr (.inr ⟨rfl, _, rfl, ?_, ?_⟩))⟩
  · exact Nat.zero_le _
  · decide

/-- The whole budget less one millisecond went by on the way: the request that the
    service denies is admitted. -/
theorem deny_admitted_when_aged :
    ((program (openConfig 0)).machine.run ⟨initial, []⟩ (asks 0 denial 999)).any (fun pool =>
      pool.threads[0]? = some (.answered none none) && pool.shared.cancelled = false &&
        (pool.shared.queries[0]?.any fun q => q.reply = some denial)) = true := by
  decide +kernel

end Guard
