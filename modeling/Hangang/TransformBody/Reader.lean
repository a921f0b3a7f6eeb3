import Hangang.Framework.Bytes
import Hangang.Framework.Except

/-! # Body Transformation: the Record Reader

    The reader that cuts a body, in whatever frames it arrives, into records for
    the transformation: lines that end in LF for newline-delimited JSON, and lines
    that end in LF, CR or CRLF for event streams.

    * **Frames**: what the body hands out. The reader drops trailers; an error ends
      the body.
    * **Reader**: the rest of the last frame, whether the body has ended, and
      whether the CR of a CRLF pair was the last byte read.
    * **Line**: one record, with the byte limit that holds for it.

    What is left of the body is `Reader.pending`. -/

open Bytes

namespace TransformBody

inductive TransformError where
  | tooLarge
  | timeout
  | invalid
  | policy
  | policyBusy
  deriving DecidableEq, Repr

/-- One frame of a body, with the trailers it may carry, or the error that ends it. -/
inductive Frame (Trailers : Type) where
  | data (bytes : Bytes)
  | trailers (trailers : Trailers)
  | error
  deriving DecidableEq, Repr

variable {Trailers : Type}

/-- The bytes of the data frames before the first error. -/
def bodyBytes : List (Frame Trailers) → Bytes
  | [] => []
  | .data bytes :: rest => bytes ++ bodyBytes rest
  | .trailers _ :: rest => bodyBytes rest
  | .error :: _ => []

/-- The largest `usize`. -/
def usizeMax : Nat := 2 ^ 64 - 1

def appendBounded (output bytes : Bytes) (limit : Nat) : Except TransformError Bytes :=
  if bytes.length > limit - output.length then .error .tooLarge else .ok (output ++ bytes)

theorem appendBounded_eq_ok {output bytes out : Bytes} {limit : Nat} :
    appendBounded output bytes limit = .ok out ↔
      bytes.length ≤ limit - output.length ∧ out = output ++ bytes := by
  unfold appendBounded
  by_cases h : bytes.length > limit - output.length
  · rw [if_pos h]
    constructor
    · intro heq
      cases heq
    · intro heq
      omega
  · rw [if_neg h]
    constructor
    · intro heq
      exact ⟨by omega, (Except.ok.inj heq).symm⟩
    · intro heq
      rw [heq.2]

/-! ## The reader -/

structure Reader (Trailers : Type) where
  body : List (Frame Trailers)
  chunk : Bytes
  eof : Bool
  skipLf : Bool
  deriving DecidableEq, Repr

namespace Reader

def new (body : List (Frame Trailers)) : Reader Trailers :=
  { body, chunk := [], eof := false, skipLf := false }

/-- The first turn through a chunk that is not empty: the LF after a CR is passed
    over. -/
def passLf (r : Reader Trailers) : Reader Trailers :=
  match r.chunk with
  | [] => r
  | b :: rest =>
    if r.skipLf then
      if b == 10 then { r with chunk := rest, skipLf := false } else { r with skipLf := false }
    else r

/-- The bytes that end a record. -/
def endsRecord (sse : Bool) (b : UInt8) : Bool := b == 10 || (sse && b == 13)

/-- The limit on what is collected: outside event streams one byte more, for the CR
    of a CRLF pair. -/
def appendLimit (limit : Nat) (sse : Bool) : Nat :=
  if sse then limit else min (limit + 1) usizeMax

/-- The CR that is dropped from a record that a CRLF pair ends. -/
def popCr (sse : Bool) (record : Bytes) : Bytes :=
  if !sse && record.getLast? == some 13 then record.dropLast else record

/-- What a turn through the chunk gives: a whole record, or what has been collected
    of it. -/
inductive Progress (Trailers : Type) where
  | found (record : Bytes) (r : Reader Trailers)
  | more (record : Bytes) (r : Reader Trailers)

/-- A record whose end stands at `index` of the chunk. -/
def foundAt (limit : Nat) (sse : Bool) (record : Bytes) (r : Reader Trailers) (index : Nat) :
    Except TransformError (Progress Trailers) := do
  let record ← appendBounded record (r.chunk.take index) (appendLimit limit sse)
  let record := popCr sse record
  if record.length > limit then throw .tooLarge
  else return .found record { r with
    skipLf := sse && r.chunk[index]? == some 13
    chunk := r.chunk.drop (index + 1) }

/-- A chunk in which the record does not end. -/
def collect (limit : Nat) (sse : Bool) (record : Bytes) (r : Reader Trailers) :
    Except TransformError (Progress Trailers) := do
  let record ← appendBounded record r.chunk (appendLimit limit sse)
  if record.length > limit ∧ record.getLast? ≠ some 13 then throw .tooLarge
  else return .more record { r with chunk := [] }

/-- The part of the loop that looks at the chunk. -/
def scan (limit : Nat) (sse : Bool) (record : Bytes) (reader : Reader Trailers) :
    Except TransformError (Progress Trailers) :=
  let r := reader.passLf
  if r.chunk.isEmpty then .ok (.more record r)
  else
    match r.chunk.findIdx? (endsRecord sse) with
    | some index => foundAt limit sse record r index
    | none => collect limit sse record r

/-- The end of the body: what has been collected is the last record, without its
    line end. -/
def atEof (limit : Nat) (record : Bytes) : Except TransformError (Option (Bytes × Bool)) :=
  if record.length > limit then .error .tooLarge
  else .ok (if record.isEmpty then none else some (record, false))

/-- The loop, by recursion on the frames that are still to come. -/
def lineLoop (limit : Nat) (sse : Bool) (record : Bytes) (chunk : Bytes) (eof skipLf : Bool)
    (body : List (Frame Trailers)) :
    Except TransformError (Option (Bytes × Bool) × Reader Trailers) :=
  match scan limit sse record { body, chunk, eof, skipLf } with
  | .error e => .error e
  | .ok (.found record r) => .ok (some (record, true), r)
  | .ok (.more record r) =>
    if r.eof then (atEof limit record).map fun last => (last, r)
    else
      match body with
      | .data bytes :: rest => lineLoop limit sse record bytes false r.skipLf rest
      | .trailers _ :: rest => lineLoop limit sse record r.chunk false r.skipLf rest
      | .error :: _ => .error .invalid
      | [] => (atEof limit record).map fun last => (last, { r with eof := true })

/-- The next record and whether its line end was there. -/
def line (limit : Nat) (sse : Bool) (r : Reader Trailers) :
    Except TransformError (Option (Bytes × Bool) × Reader Trailers) :=
  lineLoop limit sse [] r.chunk r.eof r.skipLf r.body

/-! ## What is left -/

/-- What is left of `x` once the LF of a CRLF pair whose CR came just before it is
    taken with it. -/
def dropLf (afterCr : Bool) (x : Bytes) : Bytes :=
  match afterCr, x with
  | true, b :: rest => if b == 10 then rest else x
  | _, _ => x

@[simp] theorem dropLf_false (x : Bytes) : dropLf false x = x := by
  cases x <;> rfl

/-- What is still to be read of the body. -/
def pending (r : Reader Trailers) : Bytes :=
  dropLf r.skipLf (r.chunk ++ if r.eof then [] else bodyBytes r.body)

theorem pending_new (body : List (Frame Trailers)) : pending (new body) = bodyBytes body := by
  simp [pending, new]

end Reader

end TransformBody
