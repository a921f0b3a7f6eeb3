import Hangang.TransformBody.Reader

/-! # Body Transformation: the Prefix Probe

    `probe_prefix` reads as much of a body as it takes to see whether it starts with the
    configured prefix. What was consumed is replayed in front of the rest, so the body
    that is returned has the content of the one that was given. -/

open Bytes

namespace TransformBody

/-- A `PrefixedBody`: the frames to replay, then the rest of the body. -/
structure PrefixedBody (Trailers : Type) where
  frames : List (Frame Trailers)
  body : List (Frame Trailers)
  deriving DecidableEq, Repr

section

variable {Trailers : Type}

/-- `poll_frame`, until the end. -/
def PrefixedBody.yields (prefixed : PrefixedBody Trailers) : List (Frame Trailers) :=
  prefixed.frames ++ prefixed.body

def prepend (body : List (Frame Trailers)) (retained : Bytes)
    (last : Option (Frame Trailers)) : PrefixedBody Trailers where
  frames := (if retained = [] then [] else [.data retained]) ++ last.toList
  body := body

/-- The loop of `probe_prefix`. The deadline passes before frame number `patience`, if there
    are that many. -/
def probeLoop (literal retained : Bytes) :
    Nat → List (Frame Trailers) → Except TransformError (PrefixedBody Trailers × Bool)
  | 0, _ => .error .timeout
  | _ + 1, [] => .ok (prepend [] retained none, false)
  | _ + 1, .error :: _ => .error .invalid
  | _ + 1, .trailers trailers :: body =>
    .ok (prepend body retained (some (.trailers trailers)), false)
  | patience + 1, .data bytes :: body =>
    if bytes = [] then probeLoop literal retained patience body
    else
      let remaining := literal.drop retained.length
      let compared := min bytes.length remaining.length
      if bytes.take compared ≠ remaining.take compared then
        .ok (prepend body retained (some (.data bytes)), false)
      else if remaining.length ≤ bytes.length then
        .ok (prepend body retained (some (.data bytes)), true)
      else probeLoop literal (retained ++ bytes) patience body

/-- `probe_prefix`; without a configured prefix every body matches. -/
def probePrefix (whenPrefix : Option Bytes) (patience : Nat) (body : List (Frame Trailers)) :
    Except TransformError (PrefixedBody Trailers × Bool) :=
  match whenPrefix with
  | none => .ok (⟨[], body⟩, true)
  | some literal =>
    if literal = [] ∨ 1024 < literal.length then .error .invalid
    else probeLoop literal [] patience body

/-! ## The content of a body -/

/-- A byte, or what is not a byte. -/
inductive Token (Trailers : Type) where
  | byte (b : UInt8)
  | trailers (trailers : Trailers)
  | error
  deriving DecidableEq, Repr

def Frame.tokens : Frame Trailers → List (Token Trailers)
  | .data bytes => bytes.map .byte
  | .trailers fields => [.trailers fields]
  | .error => [.error]

/-- What a body says, whatever its frames are. -/
def content (body : List (Frame Trailers)) : List (Token Trailers) :=
  body.flatMap Frame.tokens

/-- The data before the first trailers, error or end. -/
def leadingData : List (Frame Trailers) → Bytes
  | [] => []
  | .data bytes :: body => bytes ++ leadingData body
  | .trailers _ :: _ => []
  | .error :: _ => []

theorem content_prepend (body : List (Frame Trailers)) (retained : Bytes)
    (last : Option (Frame Trailers)) :
    content (prepend body retained last).yields =
      retained.map .byte ++ content (last.toList ++ body) := by
  unfold prepend PrefixedBody.yields content
  by_cases hretained : retained = []
  · rw [if_pos hretained, hretained]
    rfl
  · rw [if_neg hretained]
    simp [Frame.tokens]

/-! ## The probe -/

/-- A frame agrees with what is left of the prefix as far as both go. -/
theorem take_eq_take_iff {bytes remaining : Bytes} :
    bytes.take (min bytes.length remaining.length) =
        remaining.take (min bytes.length remaining.length) ↔
      bytes <+: remaining ∨ remaining <+: bytes := by
  rcases Nat.le_total bytes.length remaining.length with hle | hle
  · rw [Nat.min_eq_left hle, List.take_length]
    constructor
    · intro h
      exact .inl (h ▸ List.take_prefix _ _)
    · rintro (h | h)
      · exact List.prefix_iff_eq_take.mp h
      · rw [h.eq_of_length_le hle, List.take_length]
  · rw [Nat.min_eq_right hle, List.take_length]
    constructor
    · intro h
      exact .inr (h ▸ List.take_prefix _ _)
    · rintro (h | h)
      · rw [h.eq_of_length_le hle, List.take_length]
      · exact (List.prefix_iff_eq_take.mp h).symm

/-- What the loop returns, for the part of the prefix that was retained. -/
structure Probed (literal retained : Bytes) (body : List (Frame Trailers))
    (result : PrefixedBody Trailers × Bool) : Prop where
  matched : result.2 = true ↔ literal <+: retained ++ leadingData body
  content : content result.1.yields = retained.map .byte ++ content body
  copied : ∃ kept last, kept.length < literal.length ∧ last.toList ++ result.1.body <:+ body ∧
    result.1 = prepend result.1.body kept last

/-- **Invariant of the loop**: what is retained is a part of the prefix, and not all of it. -/
theorem probeLoop_eq_ok {literal : Bytes} {patience : Nat} {body : List (Frame Trailers)}
    {retained rest : Bytes} (hliteral : literal = retained ++ rest) (hrest : rest ≠ [])
    {result : PrefixedBody Trailers × Bool}
    (h : probeLoop literal retained patience body = .ok result) :
    Probed literal retained body result := by
  have hlength : retained.length < literal.length := by
    have hrest' := List.length_pos_iff.mpr hrest
    rw [hliteral, List.length_append]
    omega
  have hshort : ¬ literal <+: retained := by
    intro hle
    exact absurd hle.length_le (not_le.mpr hlength)
  induction body generalizing retained rest patience with
  | nil =>
    cases patience with
    | zero => cases h
    | succ patience =>
      cases h
      refine ⟨⟨fun hfalse => absurd hfalse Bool.false_ne_true, fun hle => ?_⟩,
        content_prepend _ _ _, retained, none, hlength, List.suffix_rfl, rfl⟩
      rw [leadingData, List.append_nil] at hle
      exact absurd hle hshort
  | cons frame body ih =>
    cases patience with
    | zero =>
      cases frame with
      | data bytes => cases h
      | trailers trailers => cases h
      | error => cases h
    | succ patience =>
      cases frame with
      | error => cases h
      | trailers trailers =>
        cases h
        refine ⟨⟨fun hfalse => absurd hfalse Bool.false_ne_true, fun hle => ?_⟩,
          content_prepend _ _ _, retained, some (.trailers trailers), hlength,
          List.suffix_rfl, rfl⟩
        rw [leadingData, List.append_nil] at hle
        exact absurd hle hshort
      | data bytes =>
        rw [probeLoop] at h
        have hdrop : literal.drop retained.length = rest := by
          rw [hliteral, List.drop_left]
        split at h
        · next hempty =>
          subst hempty
          obtain ⟨hmatched, hcontent, kept, last, hkept, hsuffix, heq⟩ :=
            ih hliteral hrest h hlength hshort
          exact ⟨hmatched, hcontent, kept, last, hkept, hsuffix.trans (List.suffix_cons _ _), heq⟩
        · next hbytes =>
          dsimp only at h
          rw [hdrop] at h
          -- both parts start after what is retained
          have hstart : literal <+: retained ++ leadingData (.data bytes :: body) ↔
              rest <+: bytes ++ leadingData body := by
            rw [hliteral, List.prefix_append_right_inj, leadingData]
          split at h
          · next hdiffer =>
            cases h
            refine ⟨⟨fun hfalse => absurd hfalse Bool.false_ne_true, fun hle => ?_⟩,
              content_prepend _ _ _, retained, some (.data bytes), hlength, List.suffix_rfl, rfl⟩
            exfalso
            apply hdiffer
            rw [take_eq_take_iff]
            exact (List.prefix_or_prefix_of_prefix (hstart.mp hle)
              (List.prefix_append bytes (leadingData body))).symm
          · next hagree =>
            have hagree := take_eq_take_iff.mp (not_not.mp hagree)
            split at h
            · next hlong =>
              cases h
              refine ⟨⟨fun _ => hstart.mpr ?_, fun _ => rfl⟩, content_prepend _ _ _,
                retained, some (.data bytes), hlength, List.suffix_rfl, rfl⟩
              rcases hagree with hle | hle
              · rw [hle.eq_of_length_le hlong]
                exact List.prefix_append _ _
              · exact hle.trans (List.prefix_append _ _)
            · next hlong =>
              have hle : bytes <+: rest := by
                rcases hagree with hle | hle
                · exact hle
                · exact absurd hle.length_le (by omega)
              obtain ⟨tail, rfl⟩ := hle
              have htail : tail ≠ [] := by
                rintro rfl
                rw [List.append_nil] at hlong
                exact hlong le_rfl
              have hliteral' : literal = (retained ++ bytes) ++ tail := by
                rw [hliteral, List.append_assoc]
              have hlength' : (retained ++ bytes).length < literal.length := by
                have htail' := List.length_pos_iff.mpr htail
                rw [hliteral']
                simp only [List.length_append]
                omega
              have hshort' : ¬ literal <+: retained ++ bytes := by
                intro hle
                exact absurd hle.length_le (not_le.mpr hlength')
              obtain ⟨hmatched, hcontent, kept, last, hkept, hsuffix, heq⟩ :=
                ih hliteral' htail h hlength' hshort'
              refine ⟨hmatched.trans (by rw [leadingData, List.append_assoc]), ?_, kept, last,
                hkept, hsuffix.trans (List.suffix_cons _ _), heq⟩
              rw [hcontent]
              simp [content, Frame.tokens]

/-- With enough patience, only an error of the body fails the probe. -/
theorem probeLoop_total {literal retained : Bytes} {patience : Nat}
    {body : List (Frame Trailers)} (hpatience : body.length < patience)
    (hbody : .error ∉ body) :
    ∃ result, probeLoop literal retained patience body = .ok result := by
  induction body generalizing retained patience with
  | nil =>
    obtain ⟨patience, rfl⟩ := Nat.exists_eq_succ_of_ne_zero (Nat.ne_zero_of_lt hpatience)
    exact ⟨_, rfl⟩
  | cons frame body ih =>
    obtain ⟨patience, rfl⟩ := Nat.exists_eq_succ_of_ne_zero (Nat.ne_zero_of_lt hpatience)
    have hpatience' : body.length < patience := Nat.lt_of_succ_lt_succ hpatience
    have hbody' : .error ∉ body := fun hmem => hbody (List.mem_cons_of_mem _ hmem)
    cases frame with
    | error => exact absurd List.mem_cons_self hbody
    | trailers trailers => exact ⟨_, rfl⟩
    | data bytes =>
      rw [probeLoop]
      split
      · exact ih hpatience' hbody'
      · dsimp only
        split
        · exact ⟨_, rfl⟩
        · split
          · exact ⟨_, rfl⟩
          · exact ih hpatience' hbody'

/-- **The probe is lossless.** It reports a match exactly if the data before the first
    trailers or end starts with the prefix, the body it returns has the content of the one it
    was given, and what it copied is shorter than the prefix: all that follows are frames of
    the original. With a prefix of an accepted length it returns unless the deadline passes or
    the body fails. -/
theorem probe_prefix_lossless {literal : Bytes} (hne : literal ≠ []) (patience : Nat)
    (body : List (Frame Trailers)) :
    (∀ result, probePrefix (some literal) patience body = .ok result →
      (result.2 = true ↔ literal <+: leadingData body) ∧
      content result.1.yields = content body ∧
      ∃ kept last, kept.length < literal.length ∧ last.toList ++ result.1.body <:+ body ∧
        result.1 = prepend result.1.body kept last) ∧
    (literal.length ≤ 1024 → body.length < patience → .error ∉ body →
      ∃ result, probePrefix (some literal) patience body = .ok result) := by
  constructor
  · intro result h
    rw [probePrefix] at h
    split at h
    · cases h
    · obtain ⟨hmatched, hcontent, hcopied⟩ := probeLoop_eq_ok (List.nil_append literal).symm hne h
      exact ⟨hmatched, hcontent, hcopied⟩
  · intro hle hpatience hbody
    rw [probePrefix, if_neg (not_or.mpr ⟨hne, not_lt.mpr hle⟩)]
    exact probeLoop_total hpatience hbody

end

/-- The prefix is cut between two frames, and trailers follow. -/
theorem probe_prefix_lossless_cut :
    ∃ result, probePrefix (some (ascii "ab")) 9
        [.data [97], .data [], .data [98, 99], .trailers "t"] = .ok result ∧
      result.2 = true ∧
      content result.1.yields = [.byte 97, .byte 98, .byte 99, .trailers "t"] := by
  obtain ⟨result, hresult, hmatched⟩ : ∃ result, probePrefix (some (ascii "ab")) 9
      [.data [97], .data [], .data [98, 99], .trailers "t"] = .ok result ∧ result.2 = true :=
    ⟨_, rfl, rfl⟩
  have h := (probe_prefix_lossless (by decide) 9
    [.data [97], .data [], .data [98, 99], .trailers "t"]).1 result hresult
  exact ⟨result, hresult, hmatched, h.2.1⟩

end TransformBody
