import Hangang.Framework.IpText
import Hangang.Proxy.Headers
import Mathlib.Data.Nat.Log

/-! # Prepared Entities

    A request's body is read in full and digested before anything is sent upstream. The
    frames are merged into one buffer that grows in powers of two up to the limit. The
    permit that admits a body to memory goes on with the prepared request and is given
    back by every path that fails. -/

open Bytes Except Http

namespace Projection.Entity

inductive Refused where
  | limits
  | capacity
  | allocation
  | length
  | tooLarge
  | deadline
  | body
  | trailers
  | target
  | scope
  deriving DecidableEq, Repr

/-- What reading the body comes to next. -/
inductive BodyEvent where
  | data (bytes : Bytes)
  | trailers
  | failed
  /-- The deadline passes first. -/
  | expired
  deriving DecidableEq, Repr

/-- A `Vec<u8>`. -/
structure Buffer where
  bytes : Bytes
  capacity : Nat
  deriving DecidableEq, Repr

/-- The first frame, or the frames merged, and what `Limited` still lets through. -/
structure Reading where
  first : Bytes
  merged : Option Buffer
  remaining : Nat
  deriving DecidableEq, Repr

/-- The bytes read so far. -/
def Reading.entity (reading : Reading) : Bytes := reading.merged.elim reading.first Buffer.bytes

/-- The memory that is kept between frames. -/
def Reading.retained (reading : Reading) : Nat :=
  reading.first.length + reading.merged.elim 0 Buffer.capacity

/-! ## Reading the body -/

section Reading

variable (alloc : Nat → Bool) (limit : Nat)

/-- `usize::next_power_of_two`. -/
def nextPowerOfTwo (n : Nat) : Nat := 2 ^ Nat.clog 2 n

/-- Whether an allocation of a size succeeds is up to `alloc`. -/
def reserveEntity (buffer : Buffer) (additional : Nat) : Except Refused Buffer :=
  let needed := buffer.bytes.length + additional
  if limit < needed then .error .tooLarge
  else if buffer.capacity < needed then
    let capacity := min (nextPowerOfTwo needed) limit
    if alloc capacity then .ok { buffer with capacity } else .error .allocation
  else .ok buffer

/-- `extend_from_slice`, which reallocates on its own where the capacity is too small. -/
def Buffer.extend (buffer : Buffer) (data : Bytes) : Buffer :=
  let needed := buffer.bytes.length + data.length
  { bytes := buffer.bytes ++ data
    capacity := if needed ≤ buffer.capacity then buffer.capacity
      else max (max (2 * buffer.capacity) needed) 8 }

/-- A frame with data. -/
def pushData (reading : Reading) (data : Bytes) : Except Refused Reading :=
  if data = [] then .ok reading
  else match reading.merged with
    | some buffer => do
      let buffer ← reserveEntity alloc limit buffer data.length
      return { reading with merged := some (buffer.extend data) }
    | none =>
      if reading.first = [] then .ok { reading with first := data }
      else do
        let buffer ← reserveEntity alloc limit ⟨[], 0⟩ (reading.first.length + data.length)
        return { reading with
          first := []
          merged := some ((buffer.extend reading.first).extend data) }

/-- A turn of the loop; `Limited` counts the bytes before the loop sees them. -/
def takeFrame (reading : Reading) : BodyEvent → Except Refused Reading
  | .data bytes =>
    if reading.remaining < bytes.length then .error .tooLarge
    else pushData alloc limit { reading with remaining := reading.remaining - bytes.length } bytes
  | .trailers => .error .trailers
  | .failed => .error .body
  | .expired => .error .deadline

def collect (events : List BodyEvent) : Except Refused Reading :=
  events.foldlM (takeFrame alloc limit) ⟨[], none, limit⟩

end Reading

/-! ## Preparing and dispatching -/

structure Head where
  method : Bytes
  uri : Bytes
  headers : Fields

structure Request where
  head : Head
  /-- The lower bound of the body's size hint. -/
  hint : Nat
  events : List BodyEvent

/-- `Bound` is what the request is bound to: its digest, and for a person the selected
    origin and the seal. -/
structure Prepared (Bound : Type) where
  head : Head
  body : Bytes
  bound : Bound

/-- The length that the request declares. -/
def declaredLength (headers : Fields) (maximumBytes : Nat) : Except Refused (Option Nat) :=
  match headers.getAll (ascii "content-length") with
  | [] => .ok none
  | [value] => do
    let text ← (toStr value).elim (.error .length) .ok
    ensure (text ≠ [] ∧ text.all isAsciiDigit = true ∧ IpAddr.readDecimal text < 2 ^ 64) .length
    ensure (IpAddr.readDecimal text ≤ maximumBytes) .tooLarge
    return some (IpAddr.readDecimal text)
  | _ => .error .length

/-- The checks before the permit; deadlines are in nanoseconds. -/
def precheck (request : Request) (maximumBytes deadline : Nat) : Except Refused (Option Nat) := do
  ensure (maximumBytes ≠ 0 ∧ maximumBytes ≤ 16 * 1024 * 1024 ∧ deadline ≠ 0 ∧
    deadline ≤ 5000000000) .limits
  ensure (request.head.headers.getAll (ascii "trailer") = []) .trailers
  let declared ← declaredLength request.head.headers maximumBytes
  ensure (request.hint ≤ maximumBytes) .tooLarge
  return declared

section Preparing

variable {Bound : Type}

/-- How the route's scope digests a request: for a person, with the origin that was
    selected, or for a service. -/
abbrev Digest (Bound : Type) : Type := Head → Bytes → Except Refused Bound

/-- What is done under the permit. -/
def complete (alloc : Nat → Bool) (digest : Digest Bound) (request : Request) (maximumBytes : Nat)
    (declared : Option Nat) : Except Refused (Prepared Bound) := do
  let reading ← collect alloc maximumBytes request.events
  ensure (∀ length ∈ declared, length = reading.entity.length) .length
  let bound ← digest request.head reading.entity
  return ⟨request.head, reading.entity, bound⟩

/-- `try_acquire_owned` on the permits that are available. -/
def tryAcquire (available : Nat) : Option Nat :=
  if available = 0 then none else some (available - 1)

def dropPermit (available : Nat) : Nat := available + 1

/-- `prepare_inner`, with the permits that are left in the semaphore. -/
def prepareInner (alloc : Nat → Bool) (digest : Digest Bound) (request : Request)
    (maximumBytes deadline available : Nat) : Except Refused (Prepared Bound) × Nat :=
  match precheck request maximumBytes deadline with
  | .error e => (.error e, available)
  | .ok declared =>
    match tryAcquire available with
    | none => (.error .capacity, available)
    | some available =>
      match complete alloc digest request maximumBytes declared with
      -- the permit moves into the prepared request
      | .ok prepared => (.ok prepared, available)
      | .error e => (.error e, dropPermit available)

/-- The body that is sent, with its permit. -/
structure AdmittedBody where
  body : Option Bytes
  admitted : Bool
  deriving DecidableEq, Repr

/-- `into_dispatch`. -/
def Prepared.intoDispatch (prepared : Prepared Bound) : Head × AdmittedBody :=
  ({ prepared.head with
      headers := (prepared.head.headers.remove (ascii "transfer-encoding")).insert
        (ascii "content-length") (Proxy.decimal prepared.body.length) },
    ⟨if prepared.body = [] then none else some prepared.body, true⟩)

/-- `poll_frame`: the bytes in one frame, then the end, where the permit is given back. -/
def AdmittedBody.pollFrame (body : AdmittedBody) : Option Bytes × AdmittedBody :=
  match body.body with
  | some bytes => (some bytes, { body with body := none })
  | none => (none, { body with admitted := false })

/-- The frames up to the end, and the body there. -/
def AdmittedBody.drain (body : AdmittedBody) : Bytes × AdmittedBody :=
  match body.pollFrame with
  | (some bytes, body) => (bytes, body.pollFrame.2)
  | (none, body) => ([], body)

end Preparing

/-! ## Buffers -/

section Reading

variable {alloc : Nat → Bool} {limit : Nat} {buffer : Buffer} {reading : Reading}

/-- A reservation grows within the limit, or fails. -/
theorem reserveEntity_eq_ok {buffer' : Buffer} {additional : Nat}
    (hcapacity : buffer.capacity ≤ limit)
    (h : reserveEntity alloc limit buffer additional = .ok buffer') :
    buffer'.bytes = buffer.bytes ∧ buffer'.capacity ≤ limit ∧
      buffer.bytes.length + additional ≤ buffer'.capacity := by
  unfold reserveEntity at h
  dsimp only at h
  split at h
  · cases h
  · next hle =>
    split at h
    · split at h
      · cases h
        have hpower := Nat.le_pow_clog one_lt_two (buffer.bytes.length + additional)
        exact ⟨rfl, Nat.min_le_right _ _, Nat.le_min.mpr ⟨hpower, not_lt.mp hle⟩⟩
      · cases h
    · next hroom =>
      cases h
      exact ⟨rfl, hcapacity, not_lt.mp hroom⟩

/-- What was reserved is not reallocated. -/
theorem capacity_extend {data : Bytes} (h : buffer.bytes.length + data.length ≤ buffer.capacity) :
    (buffer.extend data).capacity = buffer.capacity := if_pos h

theorem reserveEntity_of_le {additional : Nat} (halloc : ∀ n, alloc n = true)
    (hle : buffer.bytes.length + additional ≤ limit) :
    ∃ buffer', reserveEntity alloc limit buffer additional = .ok buffer' := by
  unfold reserveEntity
  dsimp only
  rw [if_neg (not_lt.mpr hle)]
  split
  · exact ⟨_, if_pos (halloc _)⟩
  · exact ⟨_, rfl⟩

/-- What holds between frames. -/
structure Sound (limit : Nat) (data : Bytes) (reading : Reading) : Prop where
  entity : reading.entity = data
  counted : data.length + reading.remaining = limit
  retained : reading.retained ≤ limit
  merged : reading.merged ≠ none → reading.first = []

/-- Data that was counted is merged, and the buffer stays within the limit. -/
theorem pushData_sound {data bytes : Bytes} {reading reading' : Reading}
    (hentity : reading.entity = data) (hretained : reading.retained ≤ limit)
    (hmerged : reading.merged ≠ none → reading.first = [])
    (hcounted : (data ++ bytes).length + reading.remaining = limit)
    (h : pushData alloc limit reading bytes = .ok reading') :
    Sound limit (data ++ bytes) reading' := by
  unfold pushData at h
  split at h
  · next hempty =>
    cases h
    subst hempty
    exact ⟨by rw [hentity, List.append_nil], hcounted, hretained, hmerged⟩
  · obtain ⟨first, merged, remaining⟩ := reading
    cases merged with
    -- the frames are merged already: the buffer grows
    | some buffer =>
      obtain rfl : first = [] := hmerged (by simp)
      obtain ⟨buffer', hreserve, h⟩ := bind_eq_ok.mp h
      cases h
      have hcapacity : buffer.capacity ≤ limit := by simpa [Reading.retained] using hretained
      obtain ⟨hbytes, hgrown, hroom⟩ := reserveEntity_eq_ok hcapacity hreserve
      have hextend : (buffer'.extend bytes).capacity = buffer'.capacity :=
        capacity_extend (by rw [hbytes]; exact hroom)
      refine ⟨?_, hcounted, by simpa [Reading.retained, hextend] using hgrown, fun _ => rfl⟩
      rw [← hentity]
      simp [Reading.entity, Buffer.extend, hbytes]
    | none =>
      dsimp only at h
      split at h
      -- the first frame is kept as it is
      · next hfirst =>
        cases h
        subst hfirst
        obtain rfl : data = [] := hentity.symm
        refine ⟨rfl, hcounted, ?_, fun hne => absurd rfl hne⟩
        simp only [Reading.retained, Option.elim_none, List.nil_append] at hcounted ⊢
        omega
      · obtain ⟨buffer', hreserve, h⟩ := bind_eq_ok.mp h
        cases h
        obtain ⟨hbytes, hgrown, hroom⟩ := reserveEntity_eq_ok (Nat.zero_le _) hreserve
        rw [List.length_nil, Nat.zero_add] at hroom
        -- the second frame makes a buffer of both
        have hfirst : (buffer'.extend first).capacity = buffer'.capacity :=
          capacity_extend (by rw [hbytes, List.length_nil]; omega)
        have hextend : ((buffer'.extend first).extend bytes).capacity = buffer'.capacity := by
          rw [capacity_extend, hfirst]
          rw [hfirst]
          simpa [Buffer.extend, hbytes] using hroom
        refine ⟨?_, hcounted, by simpa [Reading.retained, hextend] using hgrown, fun _ => rfl⟩
        rw [← hentity]
        simp [Reading.entity, Buffer.extend, hbytes]

/-- **Step**: a frame that is taken has data, and they are appended. -/
theorem takeFrame_sound {data : Bytes} {reading' : Reading} {event : BodyEvent}
    (hsound : Sound limit data reading) (h : takeFrame alloc limit reading event = .ok reading') :
    ∃ bytes, event = .data bytes ∧ Sound limit (data ++ bytes) reading' := by
  cases event with
  | data bytes =>
    rw [takeFrame] at h
    split at h
    · cases h
    · next hroom =>
      have hcounted := hsound.counted
      have hcounted' : (data ++ bytes).length + (reading.remaining - bytes.length) = limit := by
        rw [List.length_append]
        omega
      exact ⟨bytes, rfl, @pushData_sound alloc limit data bytes
        { reading with remaining := reading.remaining - bytes.length } reading'
        hsound.entity hsound.retained hsound.merged hcounted' h⟩
  | trailers => cases h
  | failed => cases h
  | expired => cases h

/-- **Run**: what was collected is the concatenation of the data frames. -/
theorem collect_sound {events : List BodyEvent} (h : collect alloc limit events = .ok reading) :
    ∃ chunks : List Bytes, events = chunks.map .data ∧ Sound limit chunks.flatten reading := by
  suffices hrun : ∀ events data start reading, Sound limit data start →
      events.foldlM (takeFrame alloc limit) start = .ok reading →
      ∃ chunks : List Bytes, events = chunks.map .data ∧
        Sound limit (data ++ chunks.flatten) reading by
    have hstart : Sound limit [] ⟨[], none, limit⟩ :=
      ⟨rfl, by simp, by simp [Reading.retained], fun _ => rfl⟩
    exact hrun events [] _ reading hstart h
  intro events
  induction events with
  | nil =>
    intro data start reading hstart h
    cases h
    exact ⟨[], rfl, by simpa using hstart⟩
  | cons event events ih =>
    intro data start reading hstart h
    rw [List.foldlM_cons, bind_eq_ok] at h
    obtain ⟨mid, hmid, h⟩ := h
    obtain ⟨bytes, rfl, hsound⟩ := takeFrame_sound hstart hmid
    obtain ⟨chunks, rfl, hend⟩ := ih _ _ _ hsound h
    exact ⟨bytes :: chunks, rfl, by simpa using hend⟩

/-- A frame within the limit is taken, unless an allocation fails. -/
theorem takeFrame_of_le {data bytes : Bytes} (halloc : ∀ n, alloc n = true)
    (hsound : Sound limit data reading) (hle : (data ++ bytes).length ≤ limit) :
    ∃ reading', takeFrame alloc limit reading (.data bytes) = .ok reading' := by
  have hcounted := hsound.counted
  rw [List.length_append] at hle
  rw [takeFrame, if_neg (by omega)]
  unfold pushData
  split
  · exact ⟨_, rfl⟩
  · obtain ⟨first, merged, remaining⟩ := reading
    cases merged with
    | some buffer =>
      have hlength : buffer.bytes.length = data.length := congrArg List.length hsound.entity
      obtain ⟨buffer', hreserve⟩ :=
        reserveEntity_of_le halloc (show buffer.bytes.length + bytes.length ≤ limit by omega)
      dsimp only
      rw [hreserve]
      exact ⟨_, rfl⟩
    | none =>
      dsimp only
      split
      · exact ⟨_, rfl⟩
      · have hlength : first.length = data.length := congrArg List.length hsound.entity
        obtain ⟨buffer', hreserve⟩ := reserveEntity_of_le halloc
          (show (Buffer.mk [] 0).bytes.length + (first.length + bytes.length) ≤ limit by
            simp only [List.length_nil]; omega)
        rw [hreserve]
        exact ⟨_, rfl⟩

/-- **Data frames** are collected if they fit, and refused as too large if not. -/
theorem collect_data (halloc : ∀ n, alloc n = true) (chunks : List Bytes) :
    (chunks.flatten.length ≤ limit ∧
        ∃ reading, collect alloc limit (chunks.map .data) = .ok reading ∧
          reading.entity = chunks.flatten) ∨
      (limit < chunks.flatten.length ∧
        collect alloc limit (chunks.map .data) = .error .tooLarge) := by
  -- from any sound start, since the frames before have been merged already
  suffices hrun : ∀ (chunks : List Bytes) data start, Sound limit data start →
      ((data ++ chunks.flatten).length ≤ limit ∧
        ∃ reading, (chunks.map BodyEvent.data).foldlM (takeFrame alloc limit) start = .ok reading ∧
          reading.entity = data ++ chunks.flatten) ∨
      (limit < (data ++ chunks.flatten).length ∧
        (chunks.map BodyEvent.data).foldlM (takeFrame alloc limit) start = .error .tooLarge) by
    have hstart : Sound limit [] ⟨[], none, limit⟩ :=
      ⟨rfl, by simp, by simp [Reading.retained], fun _ => rfl⟩
    exact hrun chunks [] _ hstart
  intro chunks
  induction chunks with
  | nil =>
    intro data start hstart
    have hcounted := hstart.counted
    exact .inl ⟨by simp only [List.flatten_nil, List.append_nil]; omega, start, rfl,
      by simpa using hstart.entity⟩
  | cons bytes chunks ih =>
    intro data start hstart
    rw [List.map_cons, List.foldlM_cons]
    by_cases hle : (data ++ bytes).length ≤ limit
    · obtain ⟨mid, hmid⟩ := takeFrame_of_le halloc hstart hle
      obtain ⟨bytes', heq, hsound⟩ := takeFrame_sound hstart hmid
      cases heq
      rw [hmid, ok_bind]
      simpa [List.append_assoc] using ih _ _ hsound
    · right
      have hcounted := hstart.counted
      have hfull : takeFrame alloc limit start (.data bytes) = .error .tooLarge := by
        rw [List.length_append] at hle
        rw [takeFrame, if_pos (by omega)]
      refine ⟨?_, by rw [hfull]; rfl⟩
      simp only [List.flatten_cons, List.length_append] at hle ⊢
      omega

end Reading

/-! ## Prepared requests -/

section Prepared

variable {Bound : Type}

theorem drain_intoDispatch (prepared : Prepared Bound) :
    prepared.intoDispatch.2.drain = (prepared.body, ⟨none, false⟩) := by
  unfold Prepared.intoDispatch AdmittedBody.drain AdmittedBody.pollFrame
  by_cases hempty : prepared.body = []
  · simp [hempty]
  · simp [hempty]

variable {maximumBytes : Nat} {alloc : Nat → Bool} {declared : Option Nat} {request : Request}

theorem complete_eq_ok {digest : Digest Bound} {prepared : Prepared Bound}
    (h : complete alloc digest request maximumBytes declared = .ok prepared) :
    ∃ chunks : List Bytes, request.events = chunks.map .data ∧ prepared.body = chunks.flatten ∧
      prepared.body.length ≤ maximumBytes ∧ prepared.head = request.head ∧
      digest request.head prepared.body = .ok prepared.bound ∧
      ∀ length ∈ declared, length = prepared.body.length := by
  unfold complete at h
  rw [bind_eq_ok] at h
  obtain ⟨reading, hcollect, h⟩ := h
  rw [bind_eq_ok] at h
  obtain ⟨_, hdeclared, h⟩ := h
  rw [bind_eq_ok] at h
  obtain ⟨bound, hdigest, h⟩ := h
  cases h
  obtain ⟨chunks, hevents, hsound⟩ := collect_sound hcollect
  have hcounted := hsound.counted
  have hle : reading.entity.length ≤ maximumBytes := by
    rw [hsound.entity]
    omega
  exact ⟨chunks, hevents, hsound.entity, hle, rfl, hdigest, ensure_eq_ok.mp hdeclared⟩

/-- The declared length that a request was accepted with. -/
theorem precheck_eq_ok {deadline : Nat}
    (h : precheck request maximumBytes deadline = .ok declared) :
    declaredLength request.head.headers maximumBytes = .ok declared := by
  unfold precheck at h
  rw [bind_eq_ok] at h
  obtain ⟨_, -, h⟩ := h
  rw [bind_eq_ok] at h
  obtain ⟨_, -, h⟩ := h
  rw [bind_eq_ok] at h
  obtain ⟨found, hfound, h⟩ := h
  rw [bind_eq_ok] at h
  obtain ⟨_, -, h⟩ := h
  cases h
  exact hfound

/-- The same bytes in other frames. -/
def Request.reframed (request : Request) (chunks : List Bytes) : Request :=
  { request with events := chunks.map .data }

theorem complete_reframed (halloc : ∀ n, alloc n = true) (digest : Digest Bound) (request : Request)
    (maximumBytes : Nat) (declared : Option Nat) {chunks chunks' : List Bytes}
    (h : chunks.flatten = chunks'.flatten) :
    complete alloc digest (request.reframed chunks) maximumBytes declared =
      complete alloc digest (request.reframed chunks') maximumBytes declared := by
  unfold complete Request.reframed
  rcases @collect_data alloc maximumBytes halloc chunks with
    ⟨hle, reading, hcollect, hentity⟩ | ⟨hlt, hcollect⟩
  · rcases @collect_data alloc maximumBytes halloc chunks' with
      ⟨-, reading', hcollect', hentity'⟩ | ⟨hlt', -⟩
    · rw [hcollect, hcollect', ok_bind, ok_bind, hentity, hentity', h]
    · rw [← h] at hlt'
      omega
  · rcases @collect_data alloc maximumBytes halloc chunks' with ⟨hle', -⟩ | ⟨-, hcollect'⟩
    · rw [← h] at hle'
      omega
    · rw [hcollect, hcollect']

/-- A body within the limit is prepared. -/
theorem complete_of_le (halloc : ∀ n, alloc n = true) {digest : Digest Bound} {chunks : List Bytes}
    {bound : Bound} (hle : chunks.flatten.length ≤ maximumBytes)
    (hdeclared : ∀ length ∈ declared, length = chunks.flatten.length)
    (hdigest : digest request.head chunks.flatten = .ok bound) :
    complete alloc digest (request.reframed chunks) maximumBytes declared =
      .ok ⟨request.head, chunks.flatten, bound⟩ := by
  rcases @collect_data alloc maximumBytes halloc chunks with
    ⟨-, reading, hcollect, hentity⟩ | ⟨hlt, -⟩
  · have hensure : ensure (∀ length ∈ declared, length = chunks.flatten.length)
        Refused.length = .ok () := ensure_eq_ok.mpr hdeclared
    unfold complete Request.reframed
    rw [hcollect, ok_bind, hentity, hensure, ok_bind, hdigest]
    rfl
  · omega

theorem tryAcquire_eq_some {available rest : Nat} (h : tryAcquire available = some rest) :
    dropPermit rest = available := by
  unfold tryAcquire at h
  split at h
  · cases h
  · next hne =>
    cases h
    exact Nat.sub_add_cancel (Nat.one_le_iff_ne_zero.mpr hne)

/-- **Prepared entities are faithful.** A prepared request has the concatenation of its data
    frames as its body, digests and dispatches exactly those bytes, and agrees with the
    length it declared; a body that fits is not lost; the frames do not matter; what is kept
    between frames never exceeds the maximum; and a failure gives the permit back. -/
theorem prepared_entity_fidelity (alloc : Nat → Bool) (digest : Digest Bound) (request : Request)
    (maximumBytes deadline available : Nat) :
    (∀ prepared available',
      prepareInner alloc digest request maximumBytes deadline available =
        (.ok prepared, available') →
      (∃ chunks : List Bytes, request.events = chunks.map .data ∧
        prepared.body = chunks.flatten) ∧
      prepared.body.length ≤ maximumBytes ∧
      digest request.head prepared.body = .ok prepared.bound ∧
      (∀ length, declaredLength request.head.headers maximumBytes = .ok (some length) →
        length = prepared.body.length) ∧
      prepared.intoDispatch.2.drain = (prepared.body, ⟨none, false⟩) ∧
      dropPermit available' = available) ∧
    (∀ e available', prepareInner alloc digest request maximumBytes deadline available =
      (.error e, available') → available' = available) ∧
    (∀ events reading, events <+: request.events →
      collect alloc maximumBytes events = .ok reading → reading.retained ≤ maximumBytes) ∧
    ((∀ n, alloc n = true) → ∀ chunks : List Bytes,
      (∀ chunks', chunks.flatten = chunks'.flatten →
        prepareInner alloc digest (request.reframed chunks) maximumBytes deadline available =
          prepareInner alloc digest (request.reframed chunks') maximumBytes deadline available) ∧
      (∀ declared rest bound,
        precheck (request.reframed chunks) maximumBytes deadline = .ok declared →
        (∀ length ∈ declared, length = chunks.flatten.length) →
        tryAcquire available = some rest → digest request.head chunks.flatten = .ok bound →
        chunks.flatten.length ≤ maximumBytes →
        prepareInner alloc digest (request.reframed chunks) maximumBytes deadline available =
          (.ok ⟨request.head, chunks.flatten, bound⟩, rest))) := by
  refine ⟨?_, ?_, ?_, ?_⟩
  -- a success has passed the precheck, the permit and the body, in this order
  · intro prepared available' h
    unfold prepareInner at h
    split at h
    · cases h
    · next declared hprecheck =>
      split at h
      · cases h
      · next rest hacquire =>
        split at h
        · next found hcomplete =>
          cases h
          obtain ⟨chunks, hevents, hbody, hle, -, hdigest, hdeclared⟩ := complete_eq_ok hcomplete
          refine ⟨⟨chunks, hevents, hbody⟩, hle, hdigest, ?_, drain_intoDispatch _,
            tryAcquire_eq_some hacquire⟩
          intro length hlength
          rw [precheck_eq_ok hprecheck] at hlength
          cases hlength
          exact hdeclared length rfl
        · cases h
  -- each way to fail gives the permit back, or has not taken it
  · intro e available' h
    unfold prepareInner at h
    split at h
    · cases h
      rfl
    · split at h
      · cases h
        rfl
      · next rest hacquire =>
        split at h
        · cases h
        · cases h
          exact tryAcquire_eq_some hacquire
  · intro events reading _ h
    obtain ⟨_, -, hsound⟩ := collect_sound h
    exact hsound.retained
  · intro halloc chunks
    refine ⟨?_, ?_⟩
    · intro chunks' h
      unfold prepareInner
      -- the precheck does not look at the frames
      have hprecheck : precheck (request.reframed chunks) maximumBytes deadline =
        precheck (request.reframed chunks') maximumBytes deadline := rfl
      rw [hprecheck]
      split
      · rfl
      · rw [complete_reframed halloc digest request maximumBytes _ h]
    · intro declared rest bound hprecheck hdeclared hacquire hdigest hle
      unfold prepareInner
      rw [hprecheck, hacquire]
      dsimp only
      rw [complete_of_le halloc hle hdeclared hdigest]

end Prepared

/-- A body in two frames and an empty one, with its length declared. -/
def framedRequest : Request where
  head := ⟨ascii "POST", ascii "/", Fields.empty.insert (ascii "content-length") (ascii "3")⟩
  hint := 0
  events := [.data [1, 2], .data [], .data [3]]

theorem prepared_entity_fidelity_framedRequest :
    ∃ prepared, prepareInner (fun _ => true) (fun _ body => .ok body) framedRequest 1024 1000000 4 =
        (.ok prepared, 3) ∧ prepared.body = [1, 2, 3] ∧ prepared.bound = [1, 2, 3] ∧
      prepared.intoDispatch.2.drain = ([1, 2, 3], ⟨none, false⟩) := by
  obtain ⟨prepared, hprepared, hbody, hdigest⟩ : ∃ prepared,
      prepareInner (fun _ => true) (fun _ body => .ok body) framedRequest 1024 1000000 4 =
        (.ok prepared, 3) ∧ prepared.body = [1, 2, 3] ∧ prepared.bound = [1, 2, 3] :=
    ⟨_, rfl, rfl, rfl⟩
  have h := ((prepared_entity_fidelity (fun _ => true) (fun _ body => .ok body) framedRequest 1024
    1000000 4).1 prepared 3 hprepared).2.2.2.2.1
  rw [hbody] at h
  exact ⟨prepared, hprepared, hbody, hdigest, h⟩

end Projection.Entity
