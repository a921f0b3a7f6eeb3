import Hangang.Guard.Denial

/-! # The Revision Fence

    Admissions and authorizations query the guard service side by side, and their
    replies come in any order.

    * **Revisions**: the observed revision never decreases, and every cached
      decision is of that revision.
    * **Provenance**: a cached decision is the reply to its own query, about the
      address it is cached for.
    * **Lifetimes**: a query keeps every clock reading that was taken for it, by
      whomever, so a decision that is used again is not any younger. -/

namespace Guard

/-! ## What a step does to the queries -/

/-- The query after a step of `tid`. -/
structure Keeps (tid : Nat) (q q' : Query) : Prop where
  owner : q'.owner = q.owner
  ip : q'.ip = q.ip
  seen : q.lifetime.seen <:+ q'.lifetime.seen
  reply : ∀ d, q.reply = some d → q'.reply = some d
  others : q.owner ≠ tid → q'.reply = q.reply
  sound : q.lifetime.Sound → q'.lifetime.Sound

namespace Keeps

variable {tid : Nat} {q q' q'' : Query}

theorem refl (tid : Nat) (q : Query) : Keeps tid q q :=
  ⟨rfl, rfl, List.suffix_refl _, fun _ h => h, fun _ => rfl, id⟩

theorem trans (h : Keeps tid q q') (h' : Keeps tid q' q'') : Keeps tid q q'' where
  owner := h'.owner.trans h.owner
  ip := h'.ip.trans h.ip
  seen := h.seen.trans h'.seen
  reply d hd := h'.reply d (h.reply d hd)
  others hne := (h'.others (h.owner ▸ hne)).trans (h.others hne)
  sound := h'.sound ∘ h.sound

theorem read (tid : Nat) (q : Query) (reading : Option Nat) (ttlMs : Nat) :
    Keeps tid q { q with lifetime := (q.lifetime.remaining reading ttlMs).2 } where
  owner := rfl
  ip := rfl
  seen := q.lifetime.seen_suffix_remaining reading ttlMs
  reply _ h := h
  others _ := rfl
  sound h := h.remaining reading ttlMs

theorem answer {d : Decision} (howner : q.owner = tid) (hreply : q.reply = none) :
    Keeps tid q { q with reply := some d } where
  owner := rfl
  ip := rfl
  seen := List.suffix_refl _
  reply _ h := absurd (hreply.symm.trans h) (Option.some_ne_none _).symm
  others h := absurd howner h
  sound := id

end Keeps

/-- What a step of `tid` does to the observed revision and to the queries. -/
structure Moves (tid : Nat) (s s' : Shared) : Prop where
  revision : ∀ r, s.cache.revision = some r → ∃ r', s'.cache.revision = some r' ∧ r ≤ r'
  queries : ∀ (i : Nat) (q : Query), s.queries[i]? = some q → ∃ q', s'.queries[i]? = some q' ∧ Keeps tid q q'
  fresh : ∀ (i : Nat) (q' : Query), s'.queries[i]? = some q' → s.queries[i]? = none → q'.lifetime.Sound

namespace Moves

variable {tid : Nat} {s s' s'' : Shared}

theorem of_queries_eq
    (hrevision : ∀ r, s.cache.revision = some r → ∃ r', s'.cache.revision = some r' ∧ r ≤ r')
    (hqueries : s'.queries = s.queries) : Moves tid s s' where
  revision := hrevision
  queries i q hq := ⟨q, hqueries ▸ hq, .refl tid q⟩
  fresh i q' hq' hnone := by
    rw [hqueries, hnone] at hq'
    cases hq'

theorem of_cache_eq (hcache : s'.cache.revision = s.cache.revision)
    (hqueries : s'.queries = s.queries) : Moves tid s s' :=
  of_queries_eq (fun r hr => ⟨r, hcache.trans hr, Nat.le_refl r⟩) hqueries

/-- The queries change one by one. -/
theorem of_rel (hrevision : s'.cache.revision = s.cache.revision)
    (hqueries : ∀ i : Nat, Option.Rel (Keeps tid) s.queries[i]? s'.queries[i]?) : Moves tid s s' where
  revision r hr := ⟨r, hrevision.trans hr, Nat.le_refl r⟩
  queries i q hq := by
    have hrel := hqueries i
    rw [hq] at hrel
    cases hq' : s'.queries[i]? with
    | none =>
      rw [hq'] at hrel
      cases hrel
    | some q' =>
      rw [hq'] at hrel
      cases hrel with
      | some hkeeps => exact ⟨q', rfl, hkeeps⟩
  fresh i q' hq' hnone := by
    have hrel := hqueries i
    rw [hq', hnone] at hrel
    cases hrel

theorem refl (tid : Nat) (s : Shared) : Moves tid s s := of_cache_eq rfl rfl

theorem trans (h : Moves tid s s') (h' : Moves tid s' s'') : Moves tid s s'' where
  revision r hr := by
    obtain ⟨r', hr', hle⟩ := h.revision r hr
    obtain ⟨r'', hr'', hle'⟩ := h'.revision r' hr'
    exact ⟨r'', hr'', Nat.le_trans hle hle'⟩
  queries i q hq := by
    obtain ⟨q', hq', hkeeps⟩ := h.queries i q hq
    obtain ⟨q'', hq'', hkeeps'⟩ := h'.queries i q' hq'
    exact ⟨q'', hq'', hkeeps.trans hkeeps'⟩
  fresh i q'' hq'' hnone := by
    cases hmid : s'.queries[i]? with
    | none => exact h'.fresh i q'' hq'' hmid
    | some q' =>
      obtain ⟨_, hq, hkeeps⟩ := h'.queries i q' hmid
      obtain rfl := Option.some.inj (hq.symm.trans hq'')
      exact hkeeps.sound (h.fresh i q' hmid hnone)

end Moves

/-! ## Assertions -/

/-- A cached decision is the reply to its own query about `ip`, of the observed
    revision. -/
structure Belongs (config : Config) (s : Shared) (ip : IpAddr) (entry : Cached) (d : Decision) :
    Prop where
  revision : s.cache.revision = some d.revision
  proof : entry.proof.revision = d.revision
  query : ∃ q, s.queries[entry.proof.lifetime]? = some q ∧ q.ip = ip ∧ q.reply = some d
  ttlMs : entry.ttlMs = min config.cacheMs d.ttlMs
  denied : entry.denied = decide (d.action = .deny)

structure Glob (config : Config) (s : Shared) : Prop where
  entries : ∀ ip entry, s.cache.entries.lookup ip = some entry → ∃ d, Belongs config s ip entry d
  sound : ∀ (i : Nat) (q : Query), s.queries[i]? = some q → q.lifetime.Sound

/-- The thread has started the query, which has had no reply yet. -/
def Waits (tid : Nat) (s : Shared) (ip : IpAddr) (query : Nat) : Prop :=
  ∃ q, s.queries[query]? = some q ∧ q.owner = tid ∧ q.ip = ip ∧ q.reply = none

def Ok (tid : Nat) (s : Shared) : Thread → Prop
  | .querying ip _ query | .authorizingQuery ip query => Waits tid s ip query
  | _ => True

section steps

variable {config : Config} {tid : Nat} {s s' : Shared}

theorem Moves.sound (h : Moves tid s s')
    (hs : ∀ (i : Nat) (q : Query), s.queries[i]? = some q → q.lifetime.Sound) :
    ∀ (i : Nat) (q : Query), s'.queries[i]? = some q → q.lifetime.Sound := by
  intro i q' hq'
  cases hold : s.queries[i]? with
  | none => exact h.fresh i q' hq' hold
  | some q =>
    obtain ⟨_, hq, hkeeps⟩ := h.queries i q hold
    obtain rfl := Option.some.inj (hq.symm.trans hq')
    exact hkeeps.sound (hs i q hold)

variable {entry : Cached} {d : Decision} {ip : IpAddr} {query : Nat} {kind : Option Kind}
  {reading : Nat → Option Nat}

theorem Belongs.moves (h : Belongs config s ip entry d) (hmoves : Moves tid s s')
    (hrevision : s'.cache.revision = s.cache.revision) : Belongs config s' ip entry d := by
  obtain ⟨q, hq, hip, hreply⟩ := h.query
  obtain ⟨q', hq', hkeeps⟩ := hmoves.queries _ q hq
  exact ⟨hrevision.trans h.revision, h.proof, ⟨q', hq', hkeeps.ip.trans hip, hkeeps.reply d hreply⟩,
    h.ttlMs, h.denied⟩

/-- No decision is added to the cache. -/
theorem Glob.moves (h : Glob config s) (hmoves : Moves tid s s')
    (hrevision : s'.cache.revision = s.cache.revision)
    (hentries : ∀ ip entry, s'.cache.entries.lookup ip = some entry →
      s.cache.entries.lookup ip = some entry) : Glob config s' where
  entries ip entry hentry := by
    obtain ⟨d, hd⟩ := h.entries ip entry (hentries ip entry hentry)
    exact ⟨d, hd.moves hmoves hrevision⟩
  sound := hmoves.sound h.sound

/-- What a step of `tid` keeps. -/
structure Steps (config : Config) (tid : Nat) (s s' : Shared) : Prop where
  moves : Moves tid s s'
  glob : Glob config s → Glob config s'

namespace Steps

variable {s'' : Shared}

theorem refl (s : Shared) : Steps config tid s s := ⟨.refl tid s, id⟩

theorem trans (h : Steps config tid s s') (h' : Steps config tid s' s'') :
    Steps config tid s s'' :=
  ⟨h.moves.trans h'.moves, h'.glob ∘ h.glob⟩

theorem of_moves (hmoves : Moves tid s s') (hcache : s'.cache = s.cache) :
    Steps config tid s s' :=
  ⟨hmoves, fun h => h.moves hmoves (by rw [hcache]) fun ip entry hentry => hcache ▸ hentry⟩

end Steps

/-! ## The parts of a step -/

theorem readLifetime_cache {ttlMs : Nat} {reading : Option Nat} :
    (readLifetime s query ttlMs reading).2.cache = s.cache := by
  unfold readLifetime
  split
  · rfl
  · rfl

theorem readLifetime_steps (query ttlMs : Nat) (reading : Option Nat) :
    Steps config tid s (readLifetime s query ttlMs reading).2 := by
  refine .of_moves ?_ readLifetime_cache
  unfold readLifetime
  cases hq : s.queries[query]? with
  | none => exact .refl tid s
  | some q =>
    refine .of_rel rfl fun i => ?_
    show Option.Rel _ _ (s.queries.set query _)[i]?
    by_cases hi : query = i
    · subst hi
      rw [List.getElem?_set_self (List.getElem?_eq_some_iff.mp hq).1, hq]
      exact .some (.read tid q reading ttlMs)
    · rw [List.getElem?_set_ne hi]
      cases s.queries[i]? with
      | none => exact .none
      | some other => exact .some (.refl tid other)

theorem readBudget_cache {ttlMs : Nat} {reading : Option Nat} :
    (readBudget s query ttlMs reading).2.cache = s.cache := by
  unfold readBudget
  split
  · exact readLifetime_cache
  · rfl

theorem readBudget_steps (query ttlMs : Nat) (reading : Option Nat) :
    Steps config tid s (readBudget s query ttlMs reading).2 := by
  unfold readBudget
  split
  · exact readLifetime_steps query ttlMs reading
  · exact .refl s

theorem startQuery_steps (ip : IpAddr) : Steps config tid s (startQuery tid s ip).2 := by
  refine .of_moves ⟨fun r hr => ⟨r, hr, Nat.le_refl r⟩, fun i q hq => ⟨q, ?_, .refl tid q⟩,
    fun i q' hq' hnone => ?_⟩ rfl
  · show (s.queries ++ _)[i]? = some q
    rw [List.getElem?_append_left (List.getElem?_eq_some_iff.mp hq).1, hq]
  · rw [startQuery, List.getElem?_append_right (List.getElem?_eq_none_iff.mp hnone)] at hq'
    obtain rfl := List.mem_singleton.mp (List.mem_of_getElem? hq')
    exact Lifetime.sound_start

theorem startQuery_ok (ip : IpAddr) :
    Waits tid (startQuery tid s ip).2 ip (startQuery tid s ip).1 :=
  ⟨⟨.start, tid, ip, none⟩, List.getElem?_concat_length, rfl, rfl, rfl⟩

theorem accepted_steps {q : Query} (hq : s.queries[query]? = some q) (howner : q.owner = tid)
    (hreply : q.reply = none) :
    Steps config tid s (accepted s query d) := by
  refine .of_moves (.of_rel rfl fun i => ?_) rfl
  by_cases hi : query = i
  · subst hi
    rw [getElem?_accepted hq, hq]
    exact .some (.answer howner hreply)
  · show Option.Rel _ _ (s.queries.modify query _)[i]?
    rw [List.getElem?_modify_ne _ _ hi]
    cases s.queries[i]? with
    | none => exact .none
    | some other => exact .some (.refl tid other)

theorem revision_observe :
    (observe s d).cache.revision = some d.revision := by
  unfold observe
  split
  · next h => exact h
  · rfl

theorem observe_steps (hnotOlder : notOlder s d = true) :
    Steps config tid s (observe s d) := by
  have hmoves : Moves tid s (observe s d) := by
    refine .of_queries_eq (fun r hr => ⟨d.revision, revision_observe, ?_⟩) queries_observe
    rw [notOlder, hr] at hnotOlder
    exact of_decide_eq_true hnotOlder
  refine ⟨hmoves, fun h => ?_⟩
  by_cases hsame : s.cache.revision = some d.revision
  · rw [observe, if_pos hsame]
    exact h
  · refine ⟨fun ip entry hentry => ?_, hmoves.sound h.sound⟩
    rw [observe, if_neg hsame] at hentry
    exact absurd hentry (by simp)

theorem retainLive_steps (reading : Nat → Option Nat) :
    Steps config tid s (retainLive s reading) := by
  have hmoves : Moves tid s (retainLive s reading) := by
    refine .of_rel rfl fun i => ?_
    unfold retainLive
    dsimp only
    rw [List.getElem?_mapIdx]
    cases s.queries[i]? with
    | none => exact .none
    | some q =>
      refine .some ?_
      split
      · exact .read tid q (reading i) 0
      · exact .refl tid q
  refine ⟨hmoves, fun h => h.moves hmoves rfl fun ip entry hentry => ?_⟩
  rw [retainLive, Table.lookup_retain] at hentry
  exact (Option.filter_eq_some_iff.mp hentry).1

theorem insert_steps (hbelongs : Belongs config s ip entry d) :
    Steps config tid s
      { s with cache := { s.cache with entries := s.cache.entries.insert ip entry } } := by
  have hmoves : Moves tid s
      { s with cache := { s.cache with entries := s.cache.entries.insert ip entry } } :=
    .of_cache_eq rfl rfl
  refine ⟨hmoves, fun h => ⟨fun ip' entry' hentry => ?_, h.sound⟩⟩
  rcases Table.lookup_of_insert hentry with ⟨rfl, rfl⟩ | hold
  · exact ⟨d, hbelongs.moves hmoves rfl⟩
  · obtain ⟨d', hd'⟩ := h.entries ip' entry' hold
    exact ⟨d', hd'.moves hmoves rfl⟩

theorem store_steps {ttl : Nat} (reading : Nat → Option Nat)
    (hbelongs : Belongs config s ip entry d) :
    Steps config tid s (store s kind ttl ip entry reading) := by
  have hretain : Steps config tid s
      (if 10000 ≤ s.cache.entries.size then retainLive s reading else s) := by
    split
    · exact retainLive_steps reading
    · exact .refl s
  have hbelongs' : Belongs config
      (if 10000 ≤ s.cache.entries.size then retainLive s reading else s) ip entry d := by
    refine hbelongs.moves hretain.moves ?_
    split
    · rfl
    · rfl
  unfold store
  split
  · dsimp only
    generalize (if 10000 ≤ s.cache.entries.size then retainLive s reading else s) = s₁
      at hretain hbelongs' ⊢
    split
    · exact hretain.trans (insert_steps hbelongs')
    · exact hretain
  · exact .refl s

/-- The second critical section of an admission, whose query has had no reply yet. -/
theorem complete_steps {q : Query} (reading : Nat → Option Nat) (hq : s.queries[query]? = some q)
    (howner : q.owner = tid) (hip : q.ip = ip) (hreply : q.reply = none) :
    Steps config tid s (complete config s ip kind query d reading).1 := by
  have haccepted : Steps config tid s (accepted s query d) := accepted_steps hq howner hreply
  have hq₁ : (accepted s query d).queries[query]? = some { q with reply := some d } :=
    getElem?_accepted hq
  unfold complete
  dsimp only
  generalize accepted s query d = s₁ at haccepted hq₁ ⊢
  split
  · exact haccepted
  · next hnotOlder =>
    have hobserved : Steps config tid s (observe s₁ d) :=
      haccepted.trans (observe_steps (by simpa using hnotOlder))
    have hq₂ : (observe s₁ d).queries[query]? = some { q with reply := some d } := by
      rw [queries_observe, hq₁]
    have hrevision : (observe s₁ d).cache.revision = some d.revision := revision_observe
    generalize observe s₁ d = s₂ at hobserved hq₂ hrevision ⊢
    split
    · exact hobserved
    · have hread : Steps config tid s₂ (readBudget s₂ query d.ttlMs (reading query)).2 :=
        readBudget_steps query d.ttlMs (reading query)
      have hcache : (readBudget s₂ query d.ttlMs (reading query)).2.cache = s₂.cache :=
        readBudget_cache
      cases hbudget : readBudget s₂ query d.ttlMs (reading query) with
      | mk left s₃ =>
        rw [hbudget] at hread hcache
        dsimp only at hread hcache ⊢
        split
        · exact hobserved.trans hread
        · obtain ⟨q₃, hq₃, hkeeps⟩ := hread.moves.queries query _ hq₂
          refine (hobserved.trans hread).trans (store_steps (d := d) reading ?_)
          exact ⟨by rw [hcache, hrevision], rfl, ⟨q₃, hq₃, hkeeps.ip.trans hip, hkeeps.reply d rfl⟩,
            rfl, rfl⟩

theorem complete_ok :
    Ok tid s' (complete config s ip kind query d reading).2 := by
  unfold complete
  dsimp only
  split
  · exact trivial
  · split
    · exact trivial
    · split
      · exact trivial
      · exact trivial

theorem lookup_steps (reading : Nat → Option Nat) :
    Steps config tid s (lookup s ip reading).1 := by
  unfold lookup
  split
  · exact .refl s
  · next entry hentry =>
    have hread : Steps config tid s (readLifetime s entry.proof.lifetime entry.ttlMs
        (reading entry.proof.lifetime)).2 :=
      readLifetime_steps entry.proof.lifetime entry.ttlMs (reading entry.proof.lifetime)
    cases hbudget : readLifetime s entry.proof.lifetime entry.ttlMs
        (reading entry.proof.lifetime) with
    | mk left s₁ =>
      rw [hbudget] at hread
      dsimp only
      split
      · exact hread
      · exact hread

theorem lookup_ok :
    Ok tid s' (lookup s ip reading).2 := by
  unfold lookup
  split
  · exact trivial
  · dsimp only
    split
    · exact trivial
    · exact trivial

theorem assess_steps (reading : Nat → Option Nat) :
    Steps config tid s (assess s ip query d reading).1 := by
  unfold assess
  split
  · exact .refl s
  · dsimp only
    split
    · exact .refl s
    · have hread : Steps config tid s
          (readBudget s query (min d.ttlMs 1000) (reading query)).2 :=
        readBudget_steps query (min d.ttlMs 1000) (reading query)
      cases hbudget : readBudget s query (min d.ttlMs 1000) (reading query) with
      | mk left s₁ =>
        rw [hbudget] at hread
        dsimp only
        split
        · exact hread
        · exact hread

theorem assess_ok :
    Ok tid s' (assess s ip query d reading).2 := by
  unfold assess
  split
  · exact trivial
  · dsimp only
    split
    · exact trivial
    · split
      · exact trivial
      · exact trivial

/-! ## The outline -/

/-- What one step of a thread does. -/
theorem advance_spec {th th' : Thread} {choice : Choice} (hok : Ok tid s th)
    (h : advance config tid s th choice = some (s', th')) :
    Steps config tid s s' ∧ Ok tid s' th' := by
  unfold advance at h
  split at h
  case h_1 ip path choice =>
    dsimp only at h
    split at h
    · cases h
      exact ⟨.refl s, trivial⟩
    · split at h
      · cases h
        exact ⟨.refl s, trivial⟩
      · cases h
        refine ⟨.refl s, ?_⟩
        split
        · exact trivial
        · exact trivial
    · cases h
  -- the cache is read; the steps that change it have lemmas of their own
  case h_2 ip reading =>
    obtain rfl : (lookup s ip reading).1 = s' := congrArg Prod.fst (Option.some.inj h)
    obtain rfl : (lookup s ip reading).2 = th' := congrArg Prod.snd (Option.some.inj h)
    exact ⟨lookup_steps reading, lookup_ok⟩
  case h_3 ip kind available =>
    split at h
    · cases h
      exact ⟨startQuery_steps ip, startQuery_ok ip⟩
    · cases h
      exact ⟨.refl s, trivial⟩
  -- a query is completed by the thread that owns it
  case h_4 ip kind query reply reading =>
    obtain ⟨q, hq, howner, hip, hreply⟩ := hok
    split at h
    · cases h
      exact ⟨.of_moves (.of_cache_eq rfl rfl) rfl, trivial⟩
    · next d _ =>
      obtain rfl : (complete config s ip kind query d reading).1 = s' :=
        congrArg Prod.fst (Option.some.inj h)
      obtain rfl : (complete config s ip kind query d reading).2 = th' :=
        congrArg Prod.snd (Option.some.inj h)
      exact ⟨complete_steps reading hq howner hip hreply, complete_ok⟩
  case h_5 ip =>
    cases h
    refine ⟨.refl s, ?_⟩
    split
    · exact trivial
    · exact trivial
  case h_6 ip available =>
    split at h
    · cases h
      exact ⟨startQuery_steps ip, startQuery_ok ip⟩
    · cases h
      exact ⟨.refl s, trivial⟩
  case h_7 ip query reply _ =>
    obtain ⟨q, hq, howner, hip, hreply⟩ := hok
    split at h
    · cases h
      exact ⟨.refl s, trivial⟩
    · next d _ =>
      -- the reply is accepted first, and observed only if it is not older
      have haccepted : Steps config tid s (accepted s query d) := accepted_steps hq howner hreply
      dsimp only at h
      split at h
      · next hnotOlder =>
        cases h
        exact ⟨haccepted.trans (observe_steps hnotOlder), trivial⟩
      · cases h
        exact ⟨haccepted, trivial⟩
  case h_8 ip query d reading =>
    obtain rfl : (assess s ip query d reading).1 = s' := congrArg Prod.fst (Option.some.inj h)
    obtain rfl : (assess s ip query d reading).2 = th' := congrArg Prod.snd (Option.some.inj h)
    exact ⟨assess_steps reading, assess_ok⟩
  case h_9 proof ip =>
    cases h
    refine ⟨.refl s, ?_⟩
    split
    · exact trivial
    · exact trivial
  case h_10 proof reading =>
    cases h
    exact ⟨readLifetime_steps proof.lifetime (min proof.ttlMs 1000) (reading proof.lifetime),
      trivial⟩
  case h_11 => cases h

/-- Waiting for a reply is not disturbed by the steps of other threads. -/
theorem Waits.moves {i : Nat} (hne : i ≠ tid) (h : Waits i s ip query) (hmoves : Moves tid s s') :
    Waits i s' ip query := by
  obtain ⟨q, hq, howner, hip, hreply⟩ := h
  obtain ⟨q', hq', hkeeps⟩ := hmoves.queries query q hq
  refine ⟨q', hq', hkeeps.owner.trans howner, hkeeps.ip.trans hip, ?_⟩
  rw [hkeeps.others (howner ▸ hne), hreply]

theorem Ok.moves {i : Nat} {other : Thread} (hne : i ≠ tid) (h : Ok i s other)
    (hmoves : Moves tid s s') : Ok i s' other := by
  cases other with
  | querying ip kind query => exact Waits.moves hne h hmoves
  | authorizingQuery ip query => exact Waits.moves hne h hmoves
  | _ => exact trivial

end steps

variable {s s' : Shared} {config : Config}

theorem cancel_moves (u : Unit) (tid : Nat) (h : cancel s u = some s') :
    Moves tid s s' := by
  cases h
  exact .of_cache_eq rfl rfl

def outline (config : Config) : (program config).Outline fun _ _ => true where
  Glob := Glob config
  Ok := Ok
  start {s call th} tid _ hstart := by
    cases call with
    | _ => cases hstart; exact trivial
  own hglob hok _ hadvance := by
    obtain ⟨hsteps, hok'⟩ := advance_spec hok hadvance
    exact ⟨hsteps.glob hglob, hok'⟩
  interference hne _ hok _ hother hadvance :=
    hother.moves hne (advance_spec hok hadvance).1.moves
  tick {s u s'} hglob htick := by
    have hmoves : ∀ tid, Moves tid s s' := fun tid => cancel_moves u tid htick
    refine ⟨?_, fun i th hok => hok.moves (Nat.ne_of_lt (Nat.lt_succ_self i)) (hmoves (i + 1))⟩
    cases htick
    exact (Steps.of_moves (hmoves 0) rfl).glob hglob

theorem glob_initial (config : Config) : Glob config initial :=
  ⟨fun ip entry h => absurd h (by simp [initial]), fun i q h => absurd h (by simp [initial])⟩

theorem holds_of_run {events : List (Event Call Choice Unit)} {pool : Pool Shared Thread}
    (hrun : (program config).machine.run ⟨initial, []⟩ events = some pool) :
    (outline config).Holds pool := by
  rw [← Program.under_true] at hrun
  exact (outline config).holds_run ((outline config).holds_initial (glob_initial config)) hrun

/-! ## The fence -/

/-- What later instants keep: the observed revision has not decreased, and each
    query has its readings still. -/
structure Since (s s' : Shared) : Prop where
  revision : ∀ r, s.cache.revision = some r → ∃ r', s'.cache.revision = some r' ∧ r ≤ r'
  seen : ∀ (i : Nat) (q : Query), s.queries[i]? = some q →
    ∃ q', s'.queries[i]? = some q' ∧ q'.ip = q.ip ∧ q.lifetime.seen <:+ q'.lifetime.seen

theorem Moves.since {tid : Nat} (h : Moves tid s s') : Since s s' := by
  refine ⟨h.revision, fun i q hq => ?_⟩
  obtain ⟨q', hq', hkeeps⟩ := h.queries i q hq
  exact ⟨q', hq', hkeeps.ip, hkeeps.seen⟩

theorem Since.trans {s'' : Shared} (h : Since s s') (h' : Since s' s'') : Since s s'' where
  revision r hr := by
    obtain ⟨r', hr', hle⟩ := h.revision r hr
    obtain ⟨r'', hr'', hle'⟩ := h'.revision r' hr'
    exact ⟨r'', hr'', Nat.le_trans hle hle'⟩
  seen i q hq := by
    obtain ⟨q', hq', hip, hseen⟩ := h.seen i q hq
    obtain ⟨q'', hq'', hip', hseen'⟩ := h'.seen i q' hq'
    exact ⟨q'', hq'', hip'.trans hip, hseen.trans hseen'⟩

theorem since_of_took {pool pool' : Pool Shared Thread} {event : Event Call Choice Unit}
    (hholds : (outline config).Holds pool)
    (htook : (program config).Took (fun _ _ => true) pool event pool') :
    Since pool.shared pool'.shared := by
  cases htook with
  | start _ => exact (Moves.refl 0 pool.shared).since
  | step hth _ hadvance => exact (advance_spec (hholds.ok _ _ hth) hadvance).1.moves.since
  | @tick u _ htick => exact (cancel_moves u 0 htick).since

theorem since_of_run {pool pool' : Pool Shared Thread} {events : List (Event Call Choice Unit)}
    (hholds : (outline config).Holds pool)
    (hrun : (program config).machine.run pool events = some pool') :
    Since pool.shared pool'.shared := by
  rw [← Program.under_true] at hrun
  refine Machine.run_relation (outline config).Holds (fun t t' => Since t.shared t'.shared)
    (fun t => (Moves.refl 0 t.shared).since) (fun _ _ _ => Since.trans) ?_ ?_ hholds hrun
  · intro t event t' h hstep
    exact (outline config).holds_took h (Program.took_of_step hstep)
  · intro t event t' h hstep
    exact since_of_took h (Program.took_of_step hstep)

/-- A cached decision is served from a query whose own clock has neither failed nor
    gone back, within the budget counted from the start of that query. -/
theorem lookup_answered {ip : IpAddr} {reading : Nat → Option Nat} {rejection : Option Nat}
    {proof : Option RequestEvidence} (hglob : Glob config s)
    (h : lookup s ip reading = (s', .answered rejection proof)) :
    ∃ entry q d elapsed, s.cache.entries.lookup ip = some entry ∧
      s.queries[entry.proof.lifetime]? = some q ∧ q.ip = ip ∧ q.reply = some d ∧
      reading entry.proof.lifetime = some elapsed ∧
      elapsed < (min config.cacheMs d.ttlMs - 1) * nanosPerMs ∧
      Lifetime.Steady (some elapsed :: q.lifetime.seen) ∧
      rejection = (if d.action = .deny then some 403 else none) ∧
      (∀ p, proof = some p → p.lifetime = entry.proof.lifetime ∧
        p.ttlMs = min config.cacheMs d.ttlMs) ∧
      s'.cache = s.cache := by
  unfold lookup at h
  split at h
  · cases h
  · next entry hentry =>
    -- the entry belongs to a query, and its time is read on the clock of that query
    obtain ⟨d, hbelongs⟩ := hglob.entries ip entry hentry
    obtain ⟨q, hq, hip, hreply⟩ := hbelongs.query
    cases hread : readLifetime s entry.proof.lifetime entry.ttlMs
        (reading entry.proof.lifetime) with
    | mk left s₁ =>
      rw [hread] at h
      dsimp only at h
      split at h
      · next hserved =>
        obtain ⟨rfl, hanswer⟩ := Prod.mk.inj h
        obtain ⟨rfl, rfl⟩ := Thread.answered.inj hanswer
        -- served means that time was left
        have hleft : (q.lifetime.remaining (reading entry.proof.lifetime) entry.ttlMs).1.isSome =
            true := by
          rw [← readLifetime_fst hq, hread]
          exact hserved
        obtain ⟨-, elapsed, helapsed, -, hlt⟩ := Lifetime.remaining_isSome.mp hleft
        obtain ⟨hseen, hsteady⟩ := (hglob.sound _ q hq).steady_of_remaining hleft
        refine ⟨entry, q, d, elapsed, hentry, hq, hip, hreply, helapsed, hbelongs.ttlMs ▸ hlt, ?_,
          ?_, ?_, ?_⟩
        · rw [← helapsed, ← hseen]
          exact hsteady
        · simp [hbelongs.denied]
        · intro p hp
          split at hp
          · cases hp
          · cases hp
            exact ⟨rfl, hbelongs.ttlMs⟩
        · have hcache : (readLifetime s entry.proof.lifetime entry.ttlMs
              (reading entry.proof.lifetime)).2.cache = s.cache := readLifetime_cache
          rw [hread] at hcache
          exact hcache
      · cases h

/-- **Guard revision fence.** In every interleaving of admissions, authorizations and
    readers of their evidence, between any two instants of a run:

    * the observed revision does not decrease, and every query keeps the readings
      of its clock;
    * every cached decision is the accepted reply to its own query, and of the
      observed revision;
    * when an admission is answered from the cache, it is with such a decision, and
      less than the smaller of the cache's and the reply's duration, less one
      millisecond, has passed since that query started, and no reading for the
      query, this one included, has failed or gone back. What it hands out shares
      the lifetime of the query, and the cache stays as it was. -/
theorem revision_fence (config : Config) (a b : List (Event Call Choice Unit))
    (pool pool' : Pool Shared Thread)
    (hpool : (program config).machine.run ⟨initial, []⟩ a = some pool)
    (hpool' : (program config).machine.run pool b = some pool') :
    Since pool.shared pool'.shared ∧
    (∀ ip entry, pool'.shared.cache.entries.lookup ip = some entry →
      pool'.shared.cache.revision = some entry.proof.revision ∧
      ∃ q d, pool'.shared.queries[entry.proof.lifetime]? = some q ∧ q.ip = ip ∧
        q.reply = some d ∧ d.revision = entry.proof.revision) ∧
    (∀ tid ip reading s' rejection proof, pool'.threads[tid]? = some (.looking ip) →
      (program config).advance tid pool'.shared (.looking ip) (.clock reading) =
        some (s', .answered rejection proof) →
      ∃ entry q d elapsed, pool'.shared.cache.entries.lookup ip = some entry ∧
        pool'.shared.queries[entry.proof.lifetime]? = some q ∧ q.ip = ip ∧ q.reply = some d ∧
        reading entry.proof.lifetime = some elapsed ∧
        elapsed < (min config.cacheMs d.ttlMs - 1) * nanosPerMs ∧
        Lifetime.Steady (some elapsed :: q.lifetime.seen) ∧
        rejection = (if d.action = .deny then some 403 else none) ∧
        (∀ p, proof = some p → p.lifetime = entry.proof.lifetime ∧
          p.ttlMs = min config.cacheMs d.ttlMs) ∧
        s'.cache = pool'.shared.cache) := by
  have hholds := holds_of_run hpool
  -- the assertions of the first run carry over to the second one
  have hglob : Glob config pool'.shared := by
    rw [← Program.under_true] at hpool'
    exact ((outline config).holds_run hholds hpool').glob
  refine ⟨since_of_run hholds hpool', fun ip entry hentry => ?_, ?_⟩
  · obtain ⟨d, hbelongs⟩ := hglob.entries ip entry hentry
    obtain ⟨q, hq, hip, hreply⟩ := hbelongs.query
    exact ⟨hbelongs.proof ▸ hbelongs.revision, q, d, hq, hip, hreply, hbelongs.proof.symm⟩
  · intro tid ip reading s' rejection proof _ hadvance
    exact lookup_answered hglob (Option.some.inj hadvance)

/-! ## A decision that is used again -/

/-- A first request finds nothing in the cache, and the service denies it for one
    second. -/
def firstVisit : List (Event Call Choice Unit) :=
  [.start (.admission visitor []), .step 0 .go, .step 0 (.clock fun _ => none),
    .step 0 (.start true), .step 0 (.reply (.http denial) fun _ => some (100 * nanosPerMs))]

def secondVisit : List (Event Call Choice Unit) := [.start (.admission visitor []), .step 1 .go]

theorem revision_fence_second_visit : ∃ pool pool' s' rejection proof,
    (program (openConfig 500)).machine.run ⟨initial, []⟩ firstVisit = some pool ∧
    (program (openConfig 500)).machine.run pool secondVisit = some pool' ∧
    pool'.threads[1]? = some (.looking visitor) ∧
    (program (openConfig 500)).advance 1 pool'.shared (.looking visitor)
      (.clock fun _ => some (300 * nanosPerMs)) = some (s', .answered rejection proof) ∧
    Since pool.shared pool'.shared ∧ rejection ≠ none ∧ s'.cache = pool'.shared.cache := by
  have hruns : ((program (openConfig 500)).machine.run ⟨initial, []⟩ firstVisit).any (fun pool =>
      ((program (openConfig 500)).machine.run pool secondVisit).any fun pool' =>
        pool'.threads[1]? = some (.looking visitor) &&
        (((program (openConfig 500)).advance 1 pool'.shared (.looking visitor)
          (.clock fun _ => some (300 * nanosPerMs))).any fun next =>
            next.2 = .answered (some 403) none)) = true := by
    decide +kernel
  obtain ⟨pool, hpool, hruns⟩ := (Option.any_eq_true _ _).mp hruns
  obtain ⟨pool', hpool', hruns⟩ := (Option.any_eq_true _ _).mp hruns
  obtain ⟨hlooking, hserved⟩ := Bool.and_eq_true_iff.mp hruns
  obtain ⟨⟨s', th'⟩, hadvance, hth'⟩ := (Option.any_eq_true _ _).mp hserved
  obtain rfl : th' = .answered (some 403) none := of_decide_eq_true hth'
  obtain ⟨hsince, -, hserve⟩ :=
    revision_fence (openConfig 500) firstVisit secondVisit pool pool' hpool hpool'
  obtain ⟨_, _, _, _, -, -, -, -, -, -, -, -, -, hcache⟩ :=
    hserve 1 visitor _ s' _ _ (of_decide_eq_true hlooking) hadvance
  exact ⟨pool, pool', s', some 403, none, hpool, hpool', of_decide_eq_true hlooking, hadvance,
    hsince, Option.some_ne_none _, hcache⟩

end Guard
