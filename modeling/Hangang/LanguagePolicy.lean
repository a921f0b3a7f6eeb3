import Hangang.Framework.CaseFold
import Hangang.Framework.Except
import Mathlib.Data.List.Perm.Basic
import Mathlib.Data.List.Nodup

/-! # Language Preferences

    `Accept-Language` lists ranges with weights, over any number of field lines. An
    offered tag has the weight of the longest range that it equals or extends by
    subtags; `*` stands for the tags that no other range matches. The weight is
    determined by the set of listed members. -/

open Bytes Except

namespace LanguagePolicy

def maxHeaderBytes : Nat := 4096

def maxRanges : Nat := 32

def maxRangeBytes : Nat := 128

inductive LanguageError where
  | headerTooLong
  | tooManyRanges
  | invalidSyntax
  | duplicateRange
  | invalidTag
  deriving DecidableEq, Repr

/-- A range in lower case, and its weight in thousandths. -/
structure Preference where
  range : Bytes
  quality : Nat
  deriving DecidableEq, Repr

structure Preferences where
  entries : List Preference
  deriving DecidableEq, Repr

inductive HeaderState where
  | missing
  | present (preferences : Preferences)
  deriving DecidableEq, Repr

/-! ## Parsing -/

def isOws (b : UInt8) : Bool := b == 32 || b == 9

def trimOws (value : Bytes) : Bytes := (value.dropWhile isOws).rdropWhile isOws

def isAsciiAlphabetic (b : UInt8) : Bool := isAsciiUppercase b || isAsciiLowercase b

/-- The test of `valid_basic_range` on all subtags but the first. -/
def validSubtag (subtag : Bytes) : Bool :=
  !subtag.isEmpty && subtag.length ≤ 8 && subtag.all isAsciiAlphanumeric

def validBasicRange (value : Bytes) (wildcard : Bool) : Bool :=
  if value = ascii "*" then wildcard
  else if value.isEmpty || maxRangeBytes < value.length then false
  else match splitOn 45 value with
    | [] => false
    | first :: subtags => !first.isEmpty && first.length ≤ 8 && first.all isAsciiAlphabetic &&
      subtags.all validSubtag

/-- The loop over the digits of a fraction. -/
def readFraction (fraction : Bytes) : Nat :=
  (fraction.foldl (fun (acc : Nat × Nat) digit =>
    (acc.1 + (digit.toNat - 48) * acc.2, acc.2 / 10)) (0, 100)).1

/-- `parse_weight` after its `match` on the number. -/
def weigh (whole : UInt8) (fraction : Bytes) : Except LanguageError Nat :=
  if !fraction.all isAsciiDigit then .error .invalidSyntax
  else if whole = 48 then .ok (readFraction fraction)
  else if whole = 49 ∧ fraction.all (· == 48) then .ok 1000
  else .error .invalidSyntax

def parseWeight (value : Bytes) : Except LanguageError Nat :=
  match value with
  | q :: 61 :: whole :: rest =>
    if toAsciiLowercase q ≠ 113 then .error .invalidSyntax
    else match rest with
      | [] => weigh whole []
      | 46 :: fraction => if fraction.length ≤ 3 then weigh whole fraction else .error .invalidSyntax
      | _ => .error .invalidSyntax
  | _ => .error .invalidSyntax

/-- What the loop of `parse_values` reads from one member. -/
def readMember (member : Bytes) : Except LanguageError Preference := do
  ensure (trimOws member ≠ []) .invalidSyntax
  let parts := splitOn 59 (trimOws member)
  let range := trimOws (parts.headD [])
  ensure (validBasicRange range true = true) .invalidSyntax
  let quality ← (parts[1]?).elim (.ok 1000) fun weight => parseWeight (trimOws weight)
  ensure (parts.length ≤ 2) .invalidSyntax
  return ⟨lower range, quality⟩

def pushMember (entries : List Preference) (member : Bytes) :
    Except LanguageError (List Preference) := do
  ensure (entries.length ≠ maxRanges) .tooManyRanges
  let preference ← readMember member
  ensure (∀ entry ∈ entries, entry.range ≠ preference.range) .duplicateRange
  return entries ++ [preference]

/-- The loop that joins the lines: the bytes, and whether there was a line. -/
def appendValue (state : Bytes × Bool) (value : Bytes) : Except LanguageError (Bytes × Bool) :=
  if maxHeaderBytes < state.1.length + (value.length + state.2.toNat) then .error .headerTooLong
  else .ok (state.1 ++ (if state.2 then 44 :: value else value), true)

def parseBytes (bytes : Bytes) : Except LanguageError Preferences :=
  if trimOws bytes = [] then .ok ⟨[]⟩
  else Preferences.mk <$> (splitOn 44 bytes).foldlM pushMember []

def parseValues (values : List Bytes) : Except LanguageError HeaderState := do
  let state ← values.foldlM appendValue ([], false)
  if state.2 then HeaderState.present <$> parseBytes state.1 else .ok .missing

/-! ## Matching -/

def basicFilterValidated (range tag : Bytes) : Bool :=
  range == ascii "*" || tag == range || (stripPrefix range tag).any fun rest => rest.head? == some 45

/-- A turn of the loop of `quality_for`: the best range so far, and the wildcard. -/
def select (tag : Bytes) (state : Option (Nat × Nat) × Option Nat) (entry : Preference) :
    Option (Nat × Nat) × Option Nat :=
  if entry.range = ascii "*" then (state.1, some entry.quality)
  else if basicFilterValidated entry.range tag &&
      state.1.all (fun best => best.1 < entry.range.length) then
    (some (entry.range.length, entry.quality), state.2)
  else state

def Preferences.qualityFor (preferences : Preferences) (tag : Bytes) : Except LanguageError Nat :=
  if validBasicRange tag false then
    let state := preferences.entries.foldl (select (lower tag)) (none, none)
    .ok (((state.1.map Prod.snd).or state.2).getD 0)
  else .error .invalidTag

/-! ## What a list of members weighs -/

/-- The range equals the tag, or is made of its first subtags. -/
def Covers (range tag : Bytes) : Prop := tag = range ∨ ∃ rest, tag = range ++ 45 :: rest

/-- **Weight**: of the longest concrete range that covers the tag, else of `*`, else 0. -/
def Weighs (listed : Bytes → Nat → Prop) (tag : Bytes) (quality : Nat) : Prop :=
  (∃ range, listed range quality ∧ range ≠ ascii "*" ∧ Covers range tag ∧
    ∀ range' quality', listed range' quality' → range' ≠ ascii "*" → Covers range' tag →
      range'.length ≤ range.length) ∨
  (∀ range quality', listed range quality' → range ≠ ascii "*" → ¬ Covers range tag) ∧
    (listed (ascii "*") quality ∨ (∀ quality', ¬ listed (ascii "*") quality') ∧ quality = 0)

/-- The members of all lines. -/
def members (values : List Bytes) : List Bytes := values.flatMap (splitOn 44)

def Listed (values : List Bytes) (range : Bytes) (quality : Nat) : Prop :=
  ∃ member ∈ members values, readMember member = .ok ⟨range, quality⟩

variable {tag bytes : Bytes} {entries : List Preference} {values : List Bytes}
  {preferences : Preferences}

theorem covers_iff {range : Bytes} (hrange : range ≠ ascii "*") :
    basicFilterValidated range tag = true ↔ Covers range tag := by
  simp only [basicFilterValidated, beq_eq_false_iff_ne.mpr hrange, Bool.false_or, Bool.or_eq_true,
    beq_iff_eq, Option.any_eq_true, stripPrefix_eq_some, Covers]
  apply or_congr_right
  constructor
  · rintro ⟨rest, rfl, hhead⟩
    cases rest with
    | nil => cases hhead
    | cons b rest =>
      obtain rfl := Option.some.inj hhead
      exact ⟨rest, rfl⟩
  · rintro ⟨rest, rfl⟩
    exact ⟨45 :: rest, rfl, rfl⟩

theorem Covers.isPrefix {range : Bytes} (h : Covers range tag) : range <+: tag := by
  rcases h with rfl | ⟨rest, rfl⟩
  · exact List.prefix_rfl
  · exact List.prefix_append _ _

/-- One weight for each range makes one weight for each tag. -/
theorem Weighs.unique {listed : Bytes → Nat → Prop} {quality quality' : Nat}
    (hlisted : ∀ range q q', listed range q → listed range q' → q = q')
    (h : Weighs listed tag quality) (h' : Weighs listed tag quality') : quality = quality' := by
  rcases h with ⟨range, hq, hne, hcovers, hlongest⟩ | ⟨hnone, hstar⟩
  · rcases h' with ⟨range', hq', hne', hcovers', hlongest'⟩ | ⟨hnone', -⟩
    · -- two covering ranges of one length are the same range
      have hlength : range.length = range'.length :=
        Nat.le_antisymm (hlongest' _ _ hq hne hcovers) (hlongest _ _ hq' hne' hcovers')
      obtain rfl : range = range' :=
        (List.prefix_of_prefix_length_le hcovers.isPrefix hcovers'.isPrefix hlength.le).eq_of_length
          hlength
      exact hlisted _ _ _ hq hq'
    · exact absurd hcovers (hnone' _ _ hq hne)
  · rcases h' with ⟨range', hq', hne', hcovers', -⟩ | ⟨-, hstar'⟩
    · exact absurd hcovers' (hnone _ _ hq' hne')
    · rcases hstar with hq | ⟨hno, rfl⟩
      · rcases hstar' with hq' | ⟨hno', -⟩
        · exact hlisted _ _ _ hq hq'
        · exact absurd hq (hno' _)
      · rcases hstar' with hq' | ⟨-, rfl⟩
        · exact absurd hq' (hno _)
        · rfl

/-- What the loop of `quality_for` has selected. -/
structure Selected (tag : Bytes) (entries : List Preference)
    (state : Option (Nat × Nat) × Option Nat) : Prop where
  none_covers : state.1 = none → ∀ e ∈ entries, e.range ≠ ascii "*" → ¬ Covers e.range tag
  longest : ∀ best, state.1 = some best → ∃ e ∈ entries, e.range ≠ ascii "*" ∧
    Covers e.range tag ∧ best = (e.range.length, e.quality) ∧
    ∀ e' ∈ entries, e'.range ≠ ascii "*" → Covers e'.range tag → e'.range.length ≤ best.1
  no_star : state.2 = none → ∀ e ∈ entries, e.range ≠ ascii "*"
  star : ∀ q, state.2 = some q → ⟨ascii "*", q⟩ ∈ entries

/-- What holds of the entries and of one more holds of both. -/
theorem forall_mem_snoc {p : Preference → Prop} {entry : Preference} (h : ∀ e ∈ entries, p e)
    (hentry : p entry) : ∀ e ∈ entries ++ [entry], p e := by
  intro e he
  rcases List.mem_append.mp he with he | he
  · exact h e he
  · rw [List.mem_singleton.mp he]
    exact hentry

/-- **Step**: one entry more. -/
theorem Selected.select {state : Option (Nat × Nat) × Option Nat} (h : Selected tag entries state)
    (entry : Preference) : Selected tag (entries ++ [entry]) (select tag state entry) := by
  unfold LanguagePolicy.select
  by_cases hstar : entry.range = ascii "*"
  · -- the wildcard is no candidate
    rw [if_pos hstar]
    constructor
    · intro hnone
      exact forall_mem_snoc (h.none_covers hnone) fun hne => absurd hstar hne
    · intro best hbest
      obtain ⟨e, he, hne, hcovers, heq, hlongest⟩ := h.longest best hbest
      exact ⟨e, List.mem_append_left _ he, hne, hcovers, heq,
        forall_mem_snoc hlongest fun hne => absurd hstar hne⟩
    · intro hnone
      cases hnone
    · intro q hq
      obtain rfl := Option.some.inj hq
      exact List.mem_append_right _ (by rw [← hstar]; exact List.mem_cons_self)
  · rw [if_neg hstar]
    -- the wildcard stays as it was
    have hno : state.2 = none → ∀ e ∈ entries ++ [entry], e.range ≠ ascii "*" :=
      fun hnone => forall_mem_snoc (h.no_star hnone) hstar
    have hwild : ∀ q, state.2 = some q → ⟨ascii "*", q⟩ ∈ entries ++ [entry] :=
      fun q hq => List.mem_append_left _ (h.star q hq)
    split
    · next htaken =>
      rw [Bool.and_eq_true, covers_iff hstar] at htaken
      obtain ⟨hcovers, hlonger⟩ := htaken
      refine ⟨fun hnone => (by cases hnone), ?_, hno, hwild⟩
      intro best hbest
      obtain rfl := Option.some.inj hbest
      refine ⟨entry, List.mem_append_right _ List.mem_cons_self, hstar, hcovers, rfl, ?_⟩
      refine forall_mem_snoc (fun e he hne hcovers' => ?_) fun _ _ => le_rfl
      cases hold : state.1 with
      | none => exact absurd hcovers' (h.none_covers hold e he hne)
      | some old =>
        obtain ⟨-, -, -, -, -, hlongest⟩ := h.longest old hold
        have hle := hlongest e he hne hcovers'
        rw [hold, Option.all_some, decide_eq_true_iff] at hlonger
        exact hle.trans hlonger.le
    · next hkept =>
      rw [Bool.and_eq_true, covers_iff hstar] at hkept
      refine ⟨fun hnone => ?_, fun best hbest => ?_, hno, hwild⟩
      · refine forall_mem_snoc (h.none_covers hnone) fun _ hcovers => hkept ⟨hcovers, ?_⟩
        rw [hnone]
        rfl
      · obtain ⟨e, he, hne, hcovers, heq, hlongest⟩ := h.longest best hbest
        refine ⟨e, List.mem_append_left _ he, hne, hcovers, heq, ?_⟩
        refine forall_mem_snoc hlongest fun _ hcovers' => ?_
        by_contra hlonger
        apply hkept
        rw [hbest, Option.all_some, decide_eq_true_iff]
        exact ⟨hcovers', Nat.lt_of_not_le hlonger⟩

/-- **Run**: the whole list. -/
theorem selected_foldl (tag : Bytes) (entries : List Preference) :
    Selected tag entries (entries.foldl (LanguagePolicy.select tag) (none, none)) := by
  induction entries using List.reverseRecOn with
  | nil => constructor <;> simp
  | append_singleton entries entry ih =>
    rw [List.foldl_append]
    exact ih.select entry

theorem Selected.weighs {state : Option (Nat × Nat) × Option Nat} (h : Selected tag entries state) :
    Weighs (fun range quality => ⟨range, quality⟩ ∈ entries) tag
      (((state.1.map Prod.snd).or state.2).getD 0) := by
  obtain ⟨best, wildcard⟩ := state
  cases best with
  | some best =>
    obtain ⟨e, he, hne, hcovers, rfl, hlongest⟩ := h.longest best rfl
    exact .inl ⟨e.range, he, hne, hcovers, fun range q hmem => hlongest ⟨range, q⟩ hmem⟩
  | none =>
    refine .inr ⟨fun range q hmem => h.none_covers rfl ⟨range, q⟩ hmem, ?_⟩
    cases wildcard with
    | some q => exact .inl (h.star q rfl)
    | none => exact .inr ⟨fun q hmem => h.no_star rfl _ hmem rfl, rfl⟩

/-! ## Members and lines -/

/-- The lines are joined by commas. -/
theorem foldlM_appendValue {state : Bytes × Bool} (hbytes : bytes.length ≤ maxHeaderBytes) :
    values.foldlM appendValue (bytes, true) = .ok state ↔
      state = (bytes ++ values.flatMap (44 :: ·), true) ∧ state.1.length ≤ maxHeaderBytes := by
  induction values generalizing bytes with
  | nil =>
    simp only [List.foldlM_nil, pure, Except.pure, Except.ok.injEq, List.flatMap_nil,
      List.append_nil]
    constructor
    · rintro rfl
      exact ⟨rfl, hbytes⟩
    · rintro ⟨rfl, -⟩
      rfl
  | cons value values ih =>
    rw [List.foldlM_cons, List.flatMap_cons]
    by_cases hlong : maxHeaderBytes < bytes.length + (value.length + 1)
    · -- too long already, and more lines only add to it
      rw [appendValue, if_pos (by simpa using hlong)]
      constructor
      · intro h
        cases h
      · rintro ⟨rfl, hlength⟩
        simp only [List.length_append, List.length_cons] at hlength
        omega
    · rw [appendValue, if_neg (by simpa using hlong), ok_bind]
      simp only [if_true]
      rw [ih (by simp only [List.length_append, List.length_cons]; omega)]
      simp [List.append_assoc]

/-- A header that parses: its lines fit, and their members are read. -/
theorem parseValues_eq_present :
    parseValues values = .ok (.present preferences) ↔ ∃ value rest, values = value :: rest ∧
      (value ++ rest.flatMap (44 :: ·)).length ≤ maxHeaderBytes ∧
      parseBytes (value ++ rest.flatMap (44 :: ·)) = .ok preferences := by
  unfold parseValues
  rw [bind_eq_ok]
  cases values with
  | nil => simp [pure, Except.pure]
  | cons value rest =>
    rw [List.foldlM_cons]
    by_cases hlong : maxHeaderBytes < value.length
    · rw [appendValue, if_pos (by simpa using hlong)]
      constructor
      · rintro ⟨state, hstate, -⟩
        cases hstate
      · rintro ⟨_, _, heq, hlength, -⟩
        cases heq
        rw [List.length_append] at hlength
        omega
    · rw [appendValue, if_neg (by simpa using hlong), ok_bind]
      simp only [List.nil_append, Bool.false_eq_true, if_false]
      constructor
      · rintro ⟨state, hstate, hparse⟩
        obtain ⟨rfl, hlength⟩ := (foldlM_appendValue (by omega)).mp hstate
        rw [if_pos rfl] at hparse
        obtain ⟨p, hp, heq⟩ := map_eq_ok.mp hparse
        cases heq
        exact ⟨value, rest, rfl, hlength, hp⟩
      · rintro ⟨_, _, heq, hlength, hparse⟩
        cases heq
        refine ⟨_, (foldlM_appendValue (by omega)).mpr ⟨rfl, hlength⟩, ?_⟩
        rw [if_pos rfl]
        exact map_eq_ok.mpr ⟨preferences, hparse, rfl⟩

theorem splitOn_joined (value : Bytes) (rest : List Bytes) :
    splitOn 44 (value ++ rest.flatMap (44 :: ·)) = members (value :: rest) := by
  induction rest generalizing value with
  | nil => simp [members]
  | cons next rest ih =>
    rw [List.flatMap_cons, List.cons_append, splitOn_append_cons, ih next]
    simp [members]

/-- The loop over the members. -/
theorem foldlM_pushMember {ms : List Bytes} {entries entries' : List Preference}
    (hlength : entries.length ≤ maxRanges) (hnodup : (entries.map Preference.range).Nodup) :
    ms.foldlM pushMember entries = .ok entries' ↔ ∃ read,
      List.Forall₂ (fun m p => readMember m = .ok p) ms read ∧ entries' = entries ++ read ∧
      entries'.length ≤ maxRanges ∧ (entries'.map Preference.range).Nodup := by
  induction ms generalizing entries with
  | nil =>
    simp only [List.foldlM_nil, pure, Except.pure, Except.ok.injEq, List.forall₂_nil_left_iff,
      exists_eq_left, List.append_nil]
    constructor
    · rintro rfl
      exact ⟨rfl, hlength, hnodup⟩
    · rintro ⟨rfl, -⟩
      rfl
  | cons m ms ih =>
    rw [List.foldlM_cons, bind_eq_ok]
    constructor
    -- each turn has checked the number of ranges before it reads, and their names after it
    · rintro ⟨mid, hpush, hrun⟩
      unfold pushMember at hpush
      rw [bind_eq_ok] at hpush
      obtain ⟨_, hroom, hpush⟩ := hpush
      rw [bind_eq_ok] at hpush
      obtain ⟨p, hread, hpush⟩ := hpush
      rw [bind_eq_ok] at hpush
      obtain ⟨_, hnew, hpush⟩ := hpush
      obtain rfl := Except.ok.inj hpush
      have hroom := ensure_eq_ok.mp hroom
      have hnew := ensure_eq_ok.mp hnew
      rw [ih (by rw [List.length_append, List.length_singleton]; omega)
        (by simpa [List.nodup_append, hnodup] using fun e he => hnew e he)] at hrun
      obtain ⟨read, hall, rfl, hrest⟩ := hrun
      exact ⟨p :: read, .cons hread hall, by simp, hrest⟩
    · rintro ⟨all, hforall, rfl, hfits, hdistinct⟩
      obtain ⟨p, read, hread, hall, rfl⟩ := List.forall₂_cons_left_iff.mp hforall
      -- both checks follow from the result, which contains what was read so far
      have hroom : entries.length ≠ maxRanges := by
        simp only [List.length_append, List.length_cons] at hfits
        omega
      have hnew : ∀ e ∈ entries, e.range ≠ p.range := by
        intro e he heq
        rw [List.map_append, List.map_cons] at hdistinct
        exact (List.nodup_append.mp hdistinct).2.2 _ (List.mem_map_of_mem he) _
          List.mem_cons_self heq
      refine ⟨entries ++ [p], ?_, ?_⟩
      · rw [pushMember, ensure_of hroom, ok_bind, hread, ok_bind, ensure_of hnew, ok_bind]
        rfl
      · rw [ih (by simp only [List.length_append, List.length_cons, List.length_nil] at hfits ⊢; omega)
          (by simpa [List.nodup_append, hnodup] using fun e he => hnew e he)]
        exact ⟨read, hall, by simp, hfits, hdistinct⟩

/-- The entries are what the members say, and no range is there twice. -/
def Reads (ms : List Bytes) (entries : List Preference) : Prop :=
  List.Forall₂ (fun m p => readMember m = .ok p) ms entries ∧ entries.length ≤ maxRanges ∧
    (entries.map Preference.range).Nodup

theorem parseBytes_eq_ok (hblank : trimOws bytes ≠ []) :
    parseBytes bytes = .ok preferences ↔ Reads (splitOn 44 bytes) preferences.entries := by
  have hloop := @foldlM_pushMember (splitOn 44 bytes) [] preferences.entries (Nat.zero_le _)
    List.nodup_nil
  rw [parseBytes, if_neg hblank]
  constructor
  · intro h
    obtain ⟨entries, hrun, rfl⟩ := map_eq_ok.mp h
    obtain ⟨read, hall, hread, hrest⟩ := hloop.mp hrun
    rw [List.nil_append] at hread
    exact ⟨hread ▸ hall, hrest⟩
  · rintro ⟨hall, hrest⟩
    exact map_eq_ok.mpr ⟨_, hloop.mpr ⟨_, hall, rfl, hrest⟩, rfl⟩

theorem Reads.perm {ms ms' : List Bytes} (h : Reads ms entries) (hperm : ms'.Perm ms) :
    ∃ entries', Reads ms' entries' ∧ entries'.Perm entries := by
  obtain ⟨hall, hlength, hnodup⟩ := h
  obtain ⟨entries', hall', hentries⟩ := List.perm_comp_forall₂ hperm hall
  exact ⟨entries', ⟨hall', hentries.length_eq ▸ hlength,
    (hentries.map Preference.range).nodup_iff.mpr hnodup⟩, hentries⟩

theorem trimOws_eq_nil_iff {x : Bytes} : trimOws x = [] ↔ ∀ b ∈ x, isOws b = true := by
  rw [trimOws, List.rdropWhile_eq_nil_iff]
  constructor
  · intro h
    -- the first byte that is kept would be no white space
    have hdrop : x.dropWhile isOws = [] := by
      by_contra hne
      have hhead := List.head_dropWhile_not isOws hne
      rw [h _ (List.head_mem hne)] at hhead
      cases hhead
    exact List.dropWhile_eq_nil_iff.mp hdrop
  · intro h b hb
    exact h b ((List.dropWhile_suffix isOws).subset hb)

/-- Blank bytes are one member, so their members say that they are blank. -/
theorem eq_of_blank {bytes' : Bytes} (hblank : trimOws bytes = [])
    (hperm : (splitOn 44 bytes').Perm (splitOn 44 bytes)) : bytes' = bytes := by
  have hcomma : 44 ∉ bytes := by
    intro hmem
    have := trimOws_eq_nil_iff.mp hblank 44 hmem
    cases this
  have hone := splitOn_eq_singleton.mpr ⟨rfl, hcomma⟩
  rw [hone, List.perm_singleton] at hperm
  exact (splitOn_eq_singleton.mp hperm).1

/-- **Order and lines**: the same members in any order, on any lines, parse to the same
    entries. -/
theorem parseValues_perm {values' : List Bytes}
    (h : parseValues values = .ok (.present preferences)) (hvalues' : values' ≠ [])
    (hperm : (members values').Perm (members values)) :
    ∃ preferences', parseValues values' = .ok (.present preferences') ∧
      preferences'.entries.Perm preferences.entries := by
  obtain ⟨value, rest, rfl, hlength, hparse⟩ := parseValues_eq_present.mp h
  obtain ⟨value', rest', rfl⟩ := List.exists_cons_of_ne_nil hvalues'
  rw [← splitOn_joined, ← splitOn_joined] at hperm
  generalize value ++ rest.flatMap (44 :: ·) = bytes at hlength hparse hperm
  have hlength' : (value' ++ rest'.flatMap (44 :: ·)).length ≤ maxHeaderBytes := by
    have hsum := (hperm.map fun m : Bytes => m.length + 1).sum_nat
    rw [← length_eq_sum_splitOn, ← length_eq_sum_splitOn] at hsum
    omega
  suffices ∃ preferences', parseBytes (value' ++ rest'.flatMap (44 :: ·)) = .ok preferences' ∧
      preferences'.entries.Perm preferences.entries by
    obtain ⟨preferences', hparse', hentries⟩ := this
    exact ⟨preferences', parseValues_eq_present.mpr ⟨value', rest', rfl, hlength', hparse'⟩,
      hentries⟩
  by_cases hblank : trimOws bytes = []
  · rw [eq_of_blank hblank hperm]
    exact ⟨preferences, hparse, .refl _⟩
  · have hblank' : trimOws (value' ++ rest'.flatMap (44 :: ·)) ≠ [] := by
      intro hnil
      rw [← eq_of_blank hnil hperm.symm] at hnil
      exact hblank hnil
    obtain ⟨entries, hreads, hentries⟩ := ((parseBytes_eq_ok hblank).mp hparse).perm hperm
    exact ⟨⟨entries⟩, (parseBytes_eq_ok hblank').mpr hreads, hentries⟩

/-- The entries are the listed ranges. -/
theorem mem_entries_iff (h : parseValues values = .ok (.present preferences)) (range : Bytes)
    (quality : Nat) :
    ⟨range, quality⟩ ∈ preferences.entries ↔ Listed values range quality := by
  obtain ⟨value, rest, rfl, -, hparse⟩ := parseValues_eq_present.mp h
  rw [Listed, ← splitOn_joined]
  generalize value ++ rest.flatMap (44 :: ·) = bytes at hparse
  by_cases hblank : trimOws bytes = []
  · -- a blank member is no member
    rw [parseBytes, if_pos hblank, Except.ok.injEq] at hparse
    subst hparse
    constructor
    · intro hmem
      cases hmem
    · rintro ⟨member, hmember, hread⟩
      have hcomma : 44 ∉ bytes := fun hmem => by cases trimOws_eq_nil_iff.mp hblank 44 hmem
      rw [splitOn_eq_singleton.mpr ⟨rfl, hcomma⟩, List.mem_singleton] at hmember
      rw [hmember, readMember, bind_eq_ok] at hread
      obtain ⟨_, hne, -⟩ := hread
      exact absurd hblank (ensure_eq_ok.mp hne)
  · obtain ⟨hall, -⟩ := (parseBytes_eq_ok hblank).mp hparse
    generalize preferences.entries = entries at hall
    generalize splitOn 44 bytes = ms at hall
    induction hall with
    | nil => simp
    | @cons m p ms ps hread hall ih =>
      rw [List.mem_cons, ih]
      constructor
      · rintro (rfl | ⟨member, hmember, heq⟩)
        · exact ⟨m, List.mem_cons_self, hread⟩
        · exact ⟨member, List.mem_cons_of_mem m hmember, heq⟩
      · rintro ⟨member, hmember, heq⟩
        rcases List.mem_cons.mp hmember with rfl | hmember
        · rw [hread] at heq
          exact .inl (Except.ok.inj heq).symm
        · exact .inr ⟨member, hmember, heq⟩

theorem entries_unique {values : List Bytes} {preferences : Preferences}
    (h : parseValues values = .ok (.present preferences)) {range : Bytes} {q q' : Nat}
    (hq : ⟨range, q⟩ ∈ preferences.entries) (hq' : ⟨range, q'⟩ ∈ preferences.entries) : q = q' := by
  obtain ⟨value, rest, rfl, -, hparse⟩ := parseValues_eq_present.mp h
  by_cases hblank : trimOws (value ++ rest.flatMap (44 :: ·)) = []
  · rw [parseBytes, if_pos hblank, Except.ok.injEq] at hparse
    subst hparse
    cases hq
  · obtain ⟨-, -, hnodup⟩ := (parseBytes_eq_ok hblank).mp hparse
    have heq := List.inj_on_of_nodup_map hnodup hq hq' rfl
    exact congrArg Preference.quality heq

theorem qualityFor_eq {preferences : Preferences} {tag : Bytes}
    (htag : validBasicRange tag false = true) :
    ∃ quality, preferences.qualityFor tag = .ok quality ∧
      Weighs (fun range q => ⟨range, q⟩ ∈ preferences.entries) (lower tag) quality := by
  refine ⟨_, ?_, (selected_foldl (lower tag) preferences.entries).weighs⟩
  rw [Preferences.qualityFor, if_pos htag]

/-- **Accept-Language quality.** The weight of an offered tag is that of the longest
    listed range that covers it, and the same members give the same weight in any order
    and on any lines. -/
theorem quality_for_longest {values : List Bytes} {preferences : Preferences}
    (h : parseValues values = .ok (.present preferences)) {tag : Bytes}
    (htag : validBasicRange tag false = true) :
    ∃ quality, preferences.qualityFor tag = .ok quality ∧
      Weighs (Listed values) (lower tag) quality ∧
      ∀ values', values' ≠ [] → (members values').Perm (members values) →
        ∃ preferences', parseValues values' = .ok (.present preferences') ∧
          preferences'.qualityFor tag = .ok quality := by
  obtain ⟨quality, hquality, hweighs⟩ := @qualityFor_eq preferences tag htag
  have hlisted : (fun range q => (⟨range, q⟩ : Preference) ∈ preferences.entries) =
      Listed values := by
    funext range q
    exact propext (mem_entries_iff h range q)
  refine ⟨quality, hquality, hlisted ▸ hweighs, ?_⟩
  intro values' hne hperm
  obtain ⟨preferences', hparse', hentries⟩ := parseValues_perm h hne hperm
  obtain ⟨quality', hquality', hweighs'⟩ := @qualityFor_eq preferences' tag htag
  simp only [hentries.mem_iff] at hweighs'
  obtain rfl := Weighs.unique (fun range q q' hq hq' => @entries_unique _ _ h range q q' hq hq')
    hweighs hweighs'
  exact ⟨preferences', hparse', hquality'⟩

/-- `de-AT` takes the weight of `de-at` and not that of `de` or `*`. -/
theorem quality_for_longest_german :
    ∃ preferences, parseValues [ascii "de;q=0.5, *;q=0.1", ascii "DE-at;q=0.2"] =
        .ok (.present preferences) ∧ preferences.qualityFor (ascii "de-AT") = .ok 200 ∧
      ∃ quality, preferences.qualityFor (ascii "de-AT") = .ok quality ∧
        Weighs (Listed [ascii "de;q=0.5, *;q=0.1", ascii "DE-at;q=0.2"]) (lower (ascii "de-AT"))
          quality := by
  obtain ⟨preferences, hparse, hquality⟩ : ∃ preferences,
      parseValues [ascii "de;q=0.5, *;q=0.1", ascii "DE-at;q=0.2"] = .ok (.present preferences) ∧
      preferences.qualityFor (ascii "de-AT") = .ok 200 :=
    ⟨⟨[⟨ascii "de", 500⟩, ⟨ascii "*", 100⟩, ⟨ascii "de-at", 200⟩]⟩, by decide +kernel,
      by decide +kernel⟩
  have htag : validBasicRange (ascii "de-AT") false = true := by decide +kernel
  obtain ⟨quality, hequal, hweighs, -⟩ := quality_for_longest hparse htag
  exact ⟨preferences, hparse, hquality, quality, hequal, hweighs⟩

end LanguagePolicy
