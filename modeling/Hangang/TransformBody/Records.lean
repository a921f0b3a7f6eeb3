import Hangang.TransformBody.Reader

/-! # Body Transformation: Records

    In the line modes every record goes through the transformation on its own. `streamOf`
    does that on the bytes of a body; `stream_eq` says that the code does the same on the
    frames, so how a body was cut into frames does not show. -/

open Bytes

namespace TransformBody

variable {Trailers : Type}

/-! ## The code -/

/-- `State::next` outside event streams, for a record transformation `f`. -/
def next (limit : Nat) (f : Bytes → Except TransformError Bytes) (r : Reader Trailers) :
    Except TransformError (Option (Bytes × Reader Trailers)) :=
  match r.line limit false with
  | .error e => .error e
  | .ok (none, _) => .ok none
  | .ok (some (record, terminated), r) =>
    match f record with
    | .error e => .error e
    | .ok output =>
      if output.any fun b => b == 13 || b == 10 then .error .invalid
      else .ok (some (output ++ if terminated then [10] else [], r))

/-- How a number of calls came out. -/
inductive Outcome where
  | more
  | ended
  | failed (e : TransformError)
  deriving DecidableEq, Repr

/-- What is handed out in a number of calls. -/
def stream (limit : Nat) (f : Bytes → Except TransformError Bytes) :
    Nat → Reader Trailers → List Bytes × Outcome
  | 0, _ => ([], .more)
  | n + 1, r =>
    match next limit f r with
    | .error e => ([], .failed e)
    | .ok none => ([], .ended)
    | .ok (some (output, r)) => (output :: (stream limit f n r).1, (stream limit f n r).2)

/-! ## The same on bytes -/

/-- A record that is refused when its line end is found. -/
def Overlong (limit : Nat) (record : Bytes) : Prop :=
  Reader.appendLimit limit false < record.length ∨ limit < (Reader.popCr false record).length

/-- A record that is refused before its line end is found: a CR at the limit may still belong
    to it. -/
def OverlongOpen (limit : Nat) (record : Bytes) : Prop :=
  Reader.appendLimit limit false < record.length ∨
    (limit < record.length ∧ record.getLast? ≠ some 13)

instance (limit : Nat) (record : Bytes) : Decidable (Overlong limit record) :=
  inferInstanceAs (Decidable (_ ∨ _))

instance (limit : Nat) (record : Bytes) : Decidable (OverlongOpen limit record) :=
  inferInstanceAs (Decidable (_ ∨ _))

/-- The first record of `y`, which ends in an error if `failing`, and what follows. -/
def lineOf (limit : Nat) (failing : Bool) (y : Bytes) :
    Except TransformError (Option (Bytes × Bool) × Bytes) :=
  match splitOnce 10 y with
  | some (record, rest) =>
    if Overlong limit record then .error .tooLarge
    else .ok (some (Reader.popCr false record, true), rest)
  | none =>
    if OverlongOpen limit y then .error .tooLarge
    else if failing then .error .invalid
    else if limit < y.length then .error .tooLarge
    else .ok (if y = [] then none else some (y, false), [])

/-- A record's output, with its line end. -/
def recordOutput (f : Bytes → Except TransformError Bytes) (record : Bytes) (terminated : Bool) :
    Except TransformError Bytes :=
  match f record with
  | .error e => .error e
  | .ok output =>
    if output.any fun b => b == 13 || b == 10 then .error .invalid
    else .ok (output ++ if terminated then [10] else [])

def streamOf (limit : Nat) (f : Bytes → Except TransformError Bytes) (failing : Bool) :
    Nat → Bytes → List Bytes × Outcome
  | 0, _ => ([], .more)
  | n + 1, y =>
    match lineOf limit failing y with
    | .error e => ([], .failed e)
    | .ok (none, _) => ([], .ended)
    | .ok (some (record, terminated), rest) =>
      match recordOutput f record terminated with
      | .error e => ([], .failed e)
      | .ok output =>
        (output :: (streamOf limit f failing n rest).1, (streamOf limit f failing n rest).2)

/-- The records of a body: cut at LF, a CR before the LF removed. What follows the last LF is
    a record if there is anything. -/
def recordsOf : List Bytes → List (Bytes × Bool)
  | [] => []
  | [last] => if last = [] then [] else [(last, false)]
  | part :: rest => (Reader.popCr false part, true) :: recordsOf rest

def records (x : Bytes) : List (Bytes × Bool) := recordsOf (splitOn 10 x)

/-! ## Limits -/

theorem appendLimit_le (limit : Nat) : Reader.appendLimit limit false ≤ limit + 1 := by
  unfold Reader.appendLimit
  exact Nat.min_le_left _ _

variable {record : Bytes} {limit : Nat}

theorem popCr_of_getLast (h : record.getLast? ≠ some 13) :
    Reader.popCr false record = record := by
  unfold Reader.popCr
  rw [if_neg (by simpa using h)]

/-- A record that is refused early is refused, however it goes on. -/
theorem OverlongOpen.append (h : OverlongOpen limit record) (more : Bytes) :
    OverlongOpen limit (record ++ more) ∧ Overlong limit (record ++ more) := by
  have happend := appendLimit_le limit
  by_cases hmore : more = []
  · subst hmore
    rw [List.append_nil]
    refine ⟨h, ?_⟩
    rcases h with hlong | ⟨hlong, hlast⟩
    · exact .inl hlong
    · exact .inr (by rw [popCr_of_getLast hlast]; exact hlong)
  · have hpos := List.length_pos_iff.mpr hmore
    have hlong : Reader.appendLimit limit false < (record ++ more).length := by
      rw [List.length_append]
      rcases h with hlong | ⟨hlong, -⟩
      · omega
      · omega
    exact ⟨.inl hlong, .inl hlong⟩

theorem appendBounded_of_lt {bytes : Bytes} (h : limit < (record ++ bytes).length)
    (hrecord : record.length ≤ limit) :
    appendBounded record bytes limit = .error .tooLarge := by
  rw [List.length_append] at h
  unfold appendBounded
  rw [if_pos (by omega)]

theorem appendBounded_of_le {bytes : Bytes} (h : (record ++ bytes).length ≤ limit) :
    appendBounded record bytes limit = .ok (record ++ bytes) := by
  rw [List.length_append] at h
  exact appendBounded_eq_ok.mpr ⟨by omega, rfl⟩

/-! ## One chunk -/

section Chunk

variable {limit : Nat} {record : Bytes}

theorem findIdx?_endsRecord {before after : Bytes} (h : 10 ∉ before) :
    (before ++ 10 :: after).findIdx? (Reader.endsRecord false) = some before.length := by
  rw [List.findIdx?_append, List.findIdx?_eq_none_iff.mpr]
  · rw [List.findIdx?_cons, if_pos (by decide)]
    simp
  · intro b hb
    have hne : b ≠ 10 := fun hb' => h (hb' ▸ hb)
    simpa [Reader.endsRecord] using hne

theorem findIdx?_endsRecord_none {chunk : Bytes} (h : 10 ∉ chunk) :
    chunk.findIdx? (Reader.endsRecord false) = none := by
  rw [List.findIdx?_eq_none_iff]
  intro b hb
  have hne : b ≠ 10 := fun hb' => h (hb' ▸ hb)
  simpa [Reader.endsRecord] using hne

/-- The record ends in the chunk. -/
theorem scan_found (hrecord : ¬ OverlongOpen limit record) {before after : Bytes}
    (h : 10 ∉ before) (body : List (Frame Trailers)) (eof : Bool) :
    Reader.scan limit false record ⟨body, before ++ 10 :: after, eof, false⟩ =
      if Overlong limit (record ++ before) then .error .tooLarge
      else .ok (.found (Reader.popCr false (record ++ before)) ⟨body, after, eof, false⟩) := by
  have hpass : Reader.passLf ⟨body, before ++ 10 :: after, eof, false⟩ =
      ⟨body, before ++ 10 :: after, eof, false⟩ := by
    unfold Reader.passLf
    split
    · rfl
    · rfl
  have hfits : record.length ≤ Reader.appendLimit limit false :=
    not_lt.mp fun hlt => hrecord (.inl hlt)
  unfold Reader.scan
  rw [hpass]
  dsimp only
  rw [if_neg (by simp), findIdx?_endsRecord h]
  dsimp only
  unfold Reader.foundAt
  dsimp only
  rw [List.take_left]
  by_cases hlong : Reader.appendLimit limit false < (record ++ before).length
  · rw [appendBounded_of_lt hlong hfits, if_pos (.inl hlong)]
    rfl
  · rw [appendBounded_of_le (not_lt.mp hlong), Except.ok_bind]
    by_cases hpop : limit < (Reader.popCr false (record ++ before)).length
    · rw [if_pos hpop, if_pos (.inr hpop)]
      rfl
    · have hfound : ¬ Overlong limit (record ++ before) := not_or.mpr ⟨hlong, hpop⟩
      have hdrop : (before ++ 10 :: after).drop (before.length + 1) = after := by simp
      rw [if_neg hpop, if_neg hfound, hdrop]
      rfl

/-- The record does not end in the chunk. -/
theorem scan_open (hrecord : ¬ OverlongOpen limit record) {chunk : Bytes} (h : 10 ∉ chunk)
    (body : List (Frame Trailers)) (eof : Bool) :
    Reader.scan limit false record ⟨body, chunk, eof, false⟩ =
      if OverlongOpen limit (record ++ chunk) then .error .tooLarge
      else .ok (.more (record ++ chunk) ⟨body, [], eof, false⟩) := by
  have hfits : record.length ≤ Reader.appendLimit limit false :=
    not_lt.mp fun hlt => hrecord (.inl hlt)
  cases chunk with
  | nil =>
    rw [List.append_nil, if_neg hrecord]
    rfl
  | cons b chunk =>
    unfold Reader.scan Reader.passLf
    dsimp only
    rw [if_neg Bool.false_ne_true, if_neg (by simp), findIdx?_endsRecord_none h]
    dsimp only
    unfold Reader.collect
    dsimp only
    by_cases hlong : Reader.appendLimit limit false < (record ++ b :: chunk).length
    · rw [appendBounded_of_lt hlong hfits, if_pos (.inl hlong)]
      rfl
    · rw [appendBounded_of_le (not_lt.mp hlong), Except.ok_bind]
      by_cases hopen : limit < (record ++ b :: chunk).length ∧
          (record ++ b :: chunk).getLast? ≠ some 13
      · rw [if_pos hopen, if_pos (.inr hopen)]
        rfl
      · have hmore : ¬ OverlongOpen limit (record ++ b :: chunk) := not_or.mpr ⟨hlong, hopen⟩
        rw [if_neg hopen, if_neg hmore]
        rfl

end Chunk

/-! ## The frames of a body -/

/-- Whether a body ends in an error. -/
def endsInError : List (Frame Trailers) → Bool
  | [] => false
  | .data _ :: rest => endsInError rest
  | .trailers _ :: rest => endsInError rest
  | .error :: _ => true

def Reader.failing (r : Reader Trailers) : Bool := !r.eof && endsInError r.body

/-- What the loop does, for what was collected and what is to come. -/
def lineFrom (limit : Nat) (failing : Bool) (record y : Bytes) :
    Except TransformError (Option (Bytes × Bool) × Bytes) :=
  match splitOnce 10 y with
  | some (before, rest) =>
    if Overlong limit (record ++ before) then .error .tooLarge
    else .ok (some (Reader.popCr false (record ++ before), true), rest)
  | none =>
    if OverlongOpen limit (record ++ y) then .error .tooLarge
    else if failing then .error .invalid
    else if limit < (record ++ y).length then .error .tooLarge
    else .ok (if record ++ y = [] then none else some (record ++ y, false), [])

theorem lineFrom_nil (limit : Nat) (failing : Bool) (y : Bytes) :
    lineFrom limit failing [] y = lineOf limit failing y := by
  unfold lineFrom lineOf
  simp only [List.nil_append]

/-- What was collected early may be taken for pending. -/
theorem lineFrom_append {failing : Bool} {chunk : Bytes} (h : 10 ∉ chunk) (y : Bytes) :
    lineFrom limit failing record (chunk ++ y) = lineFrom limit failing (record ++ chunk) y := by
  unfold lineFrom
  cases hsplit : splitOnce 10 y with
  | none =>
    have hnone : splitOnce 10 (chunk ++ y) = none := by
      rw [splitOnce_eq_none] at hsplit ⊢
      simp [h, hsplit]
    rw [hnone]
    simp only [List.append_assoc]
  | some parts =>
    obtain ⟨before, rest⟩ := parts
    obtain ⟨rfl, hbefore⟩ := splitOnce_eq_some.mp hsplit
    have hsome : splitOnce 10 (chunk ++ (before ++ 10 :: rest)) = some (chunk ++ before, rest) :=
      splitOnce_eq_some.mpr ⟨by simp, by simp [h, hbefore]⟩
    rw [hsome]
    simp only [List.append_assoc]

/-- A record that is refused already is refused whatever comes. -/
theorem lineFrom_of_overlongOpen {failing : Bool} (h : OverlongOpen limit record) (y : Bytes) :
    lineFrom limit failing record y = .error .tooLarge := by
  unfold lineFrom
  split
  · rw [if_pos (h.append _).2]
  · rw [if_pos (h.append _).1]

/-- What the loop gives agrees with the bytes, and the reader goes on with the rest. -/
structure Agrees (failing : Bool)
    (code : Except TransformError (Option (Bytes × Bool) × Reader Trailers))
    (spec : Except TransformError (Option (Bytes × Bool) × Bytes)) : Prop where
  result : code.map (fun p => (p.1, p.2.pending)) = spec
  after : ∀ p, code = .ok p → p.2.skipLf = false ∧ p.2.failing = failing

theorem Agrees.of_error {failing : Bool} {e : TransformError} :
    @Agrees Trailers failing (.error e) (.error e) := by
  refine ⟨rfl, fun p h => ?_⟩
  cases h

theorem lineLoop_atEof (hrecord : ¬ OverlongOpen limit record) (r : Reader Trailers)
    (hr : r.chunk = [] ∧ r.eof = true ∧ r.skipLf = false) :
    Agrees false ((Reader.atEof limit record).map fun last => (last, r))
      (lineFrom limit false record []) := by
  obtain ⟨body, chunk, eof, skipLf⟩ := r
  obtain ⟨rfl, rfl, rfl⟩ := hr
  unfold Reader.atEof lineFrom
  simp only [splitOnce, List.append_nil, if_neg hrecord, Bool.false_eq_true, if_false]
  by_cases hlong : limit < record.length
  · rw [if_pos hlong, if_pos hlong]
    exact .of_error
  · rw [if_neg hlong, if_neg hlong]
    refine ⟨?_, fun p h => ?_⟩
    · simp [Except.map, Reader.pending, Reader.dropLf]
    · cases h
      exact ⟨rfl, rfl⟩

/-- The record's end is in the chunk. -/
theorem lineLoop_found {before after : Bytes} (hrecord : ¬ OverlongOpen limit record)
    (h : 10 ∉ before) (eof : Bool) (body : List (Frame Trailers)) :
    Agrees (!eof && endsInError body)
      (Reader.lineLoop limit false record (before ++ 10 :: after) eof false body)
      (lineFrom limit (!eof && endsInError body) record
        (before ++ 10 :: after ++ if eof then [] else bodyBytes body)) := by
  have hsplit : splitOnce 10 (before ++ 10 :: after ++ if eof then [] else bodyBytes body) =
      some (before, after ++ if eof then [] else bodyBytes body) :=
    splitOnce_eq_some.mpr ⟨by simp, h⟩
  unfold lineFrom
  rw [hsplit, Reader.lineLoop, scan_found hrecord h]
  dsimp only
  by_cases hlong : Overlong limit (record ++ before)
  · rw [if_pos hlong, if_pos hlong]
    exact .of_error
  · rw [if_neg hlong, if_neg hlong]
    refine ⟨?_, fun p hp => ?_⟩
    · simp [Except.map, Reader.pending, Reader.dropLf]
    · cases hp
      exact ⟨rfl, rfl⟩

/-- The record is refused in the chunk, before its end. -/
theorem lineLoop_refused {chunk : Bytes} (hrecord : ¬ OverlongOpen limit record) (h : 10 ∉ chunk)
    (hopen : OverlongOpen limit (record ++ chunk)) (eof : Bool) (body : List (Frame Trailers))
    (y : Bytes) :
    Agrees (!eof && endsInError body)
      (Reader.lineLoop limit false record chunk eof false body)
      (lineFrom limit (!eof && endsInError body) record (chunk ++ y)) := by
  rw [lineFrom_append h, lineFrom_of_overlongOpen hopen, Reader.lineLoop, scan_open hrecord h,
    if_pos hopen]
  exact .of_error

/-- **The loop** over the frames, whose invariant is that what was collected is not refused
    yet. -/
theorem lineLoop_agrees {limit : Nat} {body : List (Frame Trailers)} {record chunk : Bytes}
    {eof : Bool} (hrecord : ¬ OverlongOpen limit record) :
    Agrees (!eof && endsInError body) (Reader.lineLoop limit false record chunk eof false body)
      (lineFrom limit (!eof && endsInError body) record
        (chunk ++ if eof then [] else bodyBytes body)) := by
  induction body generalizing record chunk eof with
  | nil =>
    cases hsplit : splitOnce 10 chunk with
    | some parts =>
      obtain ⟨before, after⟩ := parts
      obtain ⟨rfl, hbefore⟩ := splitOnce_eq_some.mp hsplit
      exact lineLoop_found hrecord hbefore eof []
    | none =>
      have hchunk := splitOnce_eq_none.mp hsplit
      by_cases hopen : OverlongOpen limit (record ++ chunk)
      · exact lineLoop_refused hrecord hchunk hopen eof [] _
      · have hfailing : (!eof && @endsInError Trailers []) = false := by simp [endsInError]
        have hbytes : (if eof then [] else @bodyBytes Trailers []) = [] := by simp [bodyBytes]
        rw [hfailing, hbytes, lineFrom_append hchunk, Reader.lineLoop, scan_open hrecord hchunk,
          if_neg hopen]
        cases eof with
        | true => exact lineLoop_atEof hopen _ ⟨rfl, rfl, rfl⟩
        | false => exact lineLoop_atEof hopen _ ⟨rfl, rfl, rfl⟩
  | cons frame body ih =>
    cases hsplit : splitOnce 10 chunk with
    | some parts =>
      obtain ⟨before, after⟩ := parts
      obtain ⟨rfl, hbefore⟩ := splitOnce_eq_some.mp hsplit
      exact lineLoop_found hrecord hbefore eof (frame :: body)
    | none =>
      have hchunk := splitOnce_eq_none.mp hsplit
      by_cases hopen : OverlongOpen limit (record ++ chunk)
      · exact lineLoop_refused hrecord hchunk hopen eof (frame :: body) _
      · rw [lineFrom_append hchunk, Reader.lineLoop, scan_open hrecord hchunk, if_neg hopen]
        cases eof with
        | true => exact lineLoop_atEof hopen _ ⟨rfl, rfl, rfl⟩
        | false =>
          -- the next frame takes the place of the chunk
          cases frame with
          | data bytes => exact @ih (record ++ chunk) bytes false hopen
          | trailers _ => exact @ih (record ++ chunk) [] false hopen
          | error =>
            have hspec : lineFrom limit true (record ++ chunk) [] = .error .invalid := by
              unfold lineFrom
              simp only [splitOnce, List.append_nil, if_neg hopen, if_true]
            show Agrees true (.error .invalid) (lineFrom limit true (record ++ chunk) [])
            rw [hspec]
            exact .of_error

/-- **One record** of a reader is one record of its bytes. -/
theorem line_agrees (limit : Nat) {r : Reader Trailers} (hskip : r.skipLf = false) :
    Agrees r.failing (r.line limit false) (lineOf limit r.failing r.pending) := by
  obtain ⟨body, chunk, eof, skipLf⟩ := r
  cases hskip
  have hempty : ¬ OverlongOpen limit [] := by
    rintro (h | ⟨h, -⟩)
    · exact absurd h (Nat.not_lt_zero _)
    · exact absurd h (Nat.not_lt_zero _)
  rw [← lineFrom_nil]
  exact @lineLoop_agrees _ limit body [] chunk eof hempty

/-! ## Streams -/

/-- **The code on frames does what `streamOf` does on bytes.** -/
theorem stream_eq (limit : Nat) (f : Bytes → Except TransformError Bytes) (n : Nat)
    {r : Reader Trailers} (hskip : r.skipLf = false) :
    stream limit f n r = streamOf limit f r.failing n r.pending := by
  induction n generalizing r with
  | zero => rfl
  | succ n ih =>
    obtain ⟨hresult, hafter⟩ := line_agrees limit hskip
    rw [stream, streamOf, ← hresult, next]
    cases hline : r.line limit false with
    | error e => rfl
    | ok p =>
      obtain ⟨hskip', hfailing⟩ := hafter p hline
      obtain ⟨record, r'⟩ := p
      cases record with
      | none => rfl
      | some record =>
        obtain ⟨record, terminated⟩ := record
        simp only [Except.map, recordOutput]
        cases hf : f record with
        | error e => rfl
        | ok output =>
          dsimp only
          by_cases hplain : (output.any fun b => b == 13 || b == 10) = true
          · rw [if_pos hplain, if_pos hplain]
          · rw [if_neg hplain, if_neg hplain]
            dsimp only
            rw [ih hskip', hfailing]

/-- A record and what is written for it. -/
def Written (f : Bytes → Except TransformError Bytes) (record : Bytes × Bool) (output : Bytes) :
    Prop :=
  ∃ out, f record.1 = .ok out ∧ 13 ∉ out ∧ 10 ∉ out ∧
    output = out ++ if record.2 then [10] else []

theorem recordOutput_eq_ok {f : Bytes → Except TransformError Bytes} {output : Bytes}
    {terminated : Bool} (h : recordOutput f record terminated = .ok output) :
    Written f (record, terminated) output := by
  unfold recordOutput at h
  split at h
  · cases h
  · next out hf =>
    split at h
    · cases h
    · next hplain =>
      cases h
      have hall : ∀ b ∈ out, b ≠ 13 ∧ b ≠ 10 := by simpa [not_or] using hplain
      exact ⟨out, hf, fun h13 => (hall 13 h13).1 rfl, fun h10 => (hall 10 h10).2 rfl, rfl⟩

/-- The records of a string with an LF. -/
theorem records_cut {before : Bytes} (h : 10 ∉ before) (rest : Bytes) :
    records (before ++ 10 :: rest) = (Reader.popCr false before, true) :: records rest := by
  unfold records
  rw [splitOn_append_cons, splitOn_eq_singleton.mpr ⟨rfl, h⟩, List.singleton_append]
  cases hrest : splitOn 10 rest with
  | nil => exact absurd hrest (splitOn_ne_nil 10 rest)
  | cons part parts => rfl

theorem records_open {x : Bytes} (h : 10 ∉ x) :
    records x = if x = [] then [] else [(x, false)] := by
  unfold records
  rw [splitOn_eq_singleton.mpr ⟨rfl, h⟩]
  rfl

/-- The first record of the bytes. -/
theorem lineOf_eq_ok {failing : Bool} {y rest : Bytes} {record : Option (Bytes × Bool)}
    (h : lineOf limit failing y = .ok (record, rest)) :
    records y = record.toList ++ records rest ∧ (record = none → rest = []) ∧
      (record.isSome = true → rest.length < y.length) := by
  unfold lineOf at h
  split at h
  · next before after hsplit =>
    obtain ⟨rfl, hbefore⟩ := splitOnce_eq_some.mp hsplit
    split at h
    · cases h
    · cases h
      rw [records_cut hbefore, List.length_append, List.length_cons]
      exact ⟨rfl, fun hnone => absurd hnone (Option.some_ne_none _), fun _ => by omega⟩
  · next hsplit =>
    have hy := splitOnce_eq_none.mp hsplit
    split at h
    · cases h
    · split at h
      · cases h
      · split at h
        · cases h
        · cases h
          rw [records_open hy]
          by_cases hempty : y = []
          · subst hempty
            exact ⟨rfl, fun _ => rfl, fun hsome => absurd hsome (by simp)⟩
          · rw [if_neg hempty, if_neg hempty]
            exact ⟨rfl, fun _ => rfl, fun _ => List.length_pos_iff.mpr hempty⟩

/-- **Run**: the outputs are those of the first records, and of all of them at the end. -/
theorem streamOf_written (limit : Nat) (f : Bytes → Except TransformError Bytes) (failing : Bool)
    (n : Nat) (y : Bytes) :
    List.Forall₂ (Written f) ((records y).take (streamOf limit f failing n y).1.length)
        (streamOf limit f failing n y).1 ∧
      ((streamOf limit f failing n y).2 = .ended →
        (streamOf limit f failing n y).1.length = (records y).length) ∧
      (y.length < n → (streamOf limit f failing n y).2 ≠ .more) := by
  -- on the number of reads; each takes one record off
  induction n generalizing y with
  | zero =>
    refine ⟨.nil, fun h => ?_, fun h => absurd h (Nat.not_lt_zero _)⟩
    cases h
  | succ n ih =>
    rw [streamOf]
    split
    · refine ⟨.nil, fun h => ?_, fun _ h => ?_⟩
      · cases h
      · cases h
    -- the input is at its end
    · next rest hline =>
      obtain ⟨hrecords, hrest, -⟩ := lineOf_eq_ok hline
      refine ⟨.nil, fun _ => ?_, fun _ h => ?_⟩
      · rw [hrecords, hrest rfl]
        rfl
      · cases h
    · next record terminated rest hline =>
      obtain ⟨hrecords, -, hshorter⟩ := lineOf_eq_ok hline
      split
      · refine ⟨.nil, fun h => ?_, fun _ h => ?_⟩
        · cases h
        · cases h
      · next output houtput =>
        -- the rest is shorter, and its outputs follow the one of this record
        obtain ⟨hwritten, hended, hmore⟩ := ih rest
        refine ⟨?_, fun h => ?_, fun hlt => ?_⟩
        · rw [hrecords]
          exact .cons (recordOutput_eq_ok houtput) hwritten
        · rw [hrecords, List.length_cons, hended h]
          simp [Nat.add_comm]
        · have hrest := hshorter rfl
          exact hmore (by omega)

/-- **Records are framed by the bytes alone.** The outputs are, record by record, `f` of the
    record and an LF where it had one, and no `f` of a record has a CR or LF; the stream ends
    or fails after as many calls as the body has bytes, and if it ends every record was
    written; and bodies with the same bytes and the same end have the same outputs and the
    same outcome, size errors included, after any number of calls: those of `streamOf`. -/
theorem record_transform_framing (limit : Nat) (f : Bytes → Except TransformError Bytes)
    (body : List (Frame Trailers)) (n : Nat) :
    List.Forall₂ (Written f)
        ((records (bodyBytes body)).take (stream limit f n (.new body)).1.length)
        (stream limit f n (.new body)).1 ∧
      ((stream limit f n (.new body)).2 = .ended →
        List.Forall₂ (Written f) (records (bodyBytes body)) (stream limit f n (.new body)).1) ∧
      ((bodyBytes body).length < n → (stream limit f n (.new body)).2 ≠ .more) ∧
      (∀ body' : List (Frame Trailers), bodyBytes body' = bodyBytes body →
        endsInError body' = endsInError body →
        stream limit f n (.new body') = stream limit f n (.new body)) ∧
      stream limit f n (.new body) =
        streamOf limit f (endsInError body) n (bodyBytes body) := by
  have hstream : ∀ body : List (Frame Trailers), stream limit f n (.new body) =
      streamOf limit f (endsInError body) n (bodyBytes body) := by
    intro body
    rw [stream_eq limit f n rfl, Reader.pending_new]
    rfl
  obtain ⟨hwritten, hended, hmore⟩ :=
    streamOf_written limit f (endsInError body) n (bodyBytes body)
  rw [hstream body]
  refine ⟨hwritten, fun h => ?_, hmore, fun body' hbytes hend => ?_, rfl⟩
  · rw [hended h, List.take_length] at hwritten
    exact hwritten
  · rw [hstream body', hbytes, hend]

/-- A CR and its LF in two frames, at the limit, and a record without an LF. -/
theorem record_transform_framing_cut :
    stream 2 (fun record => .ok record.reverse) 9
        (.new [.data [97, 98, 13], .trailers (), .data [], .data [10, 99]]) =
      ([[98, 97, 10], [99]], .ended) ∧
    stream 2 (fun record => .ok record.reverse) 9
        (@Reader.new Unit [.data [97, 98, 13, 10, 99]]) =
      ([[98, 97, 10], [99]], .ended) := by
  have hcut : stream 2 (fun record => .ok record.reverse) 9
      (.new [.data [97, 98, 13], .trailers (), .data [], .data [10, 99]]) =
      ([[98, 97, 10], [99]], .ended) := rfl
  refine ⟨hcut, ?_⟩
  have h := (record_transform_framing 2 (fun record => .ok record.reverse)
    [.data [97, 98, 13], .trailers (), .data [], .data [10, 99]] 9).2.2.2.1
    [.data [97, 98, 13, 10, 99]] rfl rfl
  exact h.trans hcut

end TransformBody
