import Mathlib.Data.List.DropRight

/-! # Delimited Words

    A word occurs delimited in a text when the letters next to the occurrence, if
    there are any, are outside the alphabet of words. A text cut at letters
    outside the alphabet has the delimited words of its parts and no others. -/

namespace Delimited

variable {α : Type*} {token : α → Bool} {word text : List α}

/-- No letter of the alphabet is the last one of `before`. -/
def StopsBefore (token : α → Bool) (before : List α) : Prop :=
  ∀ b ∈ before.getLast?, token b = false

/-- No letter of the alphabet is the first one of `after`. -/
def StopsAfter (token : α → Bool) (after : List α) : Prop :=
  ∀ b ∈ after.head?, token b = false

/-- `word` occurs in `text` with no letter of the alphabet next to it. -/
def Occurs (token : α → Bool) (word text : List α) : Prop :=
  ∃ before after, text = before ++ (word ++ after) ∧ StopsBefore token before ∧
    StopsAfter token after

theorem stopsBefore_nil : StopsBefore token [] := by simp [StopsBefore]

theorem stopsAfter_nil : StopsAfter token [] := by simp [StopsAfter]

theorem stopsBefore_concat (before : List α) {b : α} (hb : token b = false) :
    StopsBefore token (before ++ [b]) := by
  simp [StopsBefore, hb]

theorem stopsAfter_cons (after : List α) {b : α} (hb : token b = false) :
    StopsAfter token (b :: after) := by
  simp [StopsAfter, hb]

theorem stopsBefore_of_forall {before : List α} (h : ∀ b ∈ before, token b = false) :
    StopsBefore token before :=
  fun b hb => h b (List.mem_of_getLast? hb)

theorem stopsAfter_of_forall {after : List α} (h : ∀ b ∈ after, token b = false) :
    StopsAfter token after :=
  fun b hb => h b (List.mem_of_head? hb)

theorem StopsBefore.append {x y : List α} (hx : StopsBefore token x) (hy : StopsBefore token y) :
    StopsBefore token (x ++ y) := by
  intro b hb
  rw [List.getLast?_append] at hb
  cases hlast : y.getLast? with
  | none => exact hx b (by simpa [hlast] using hb)
  | some c => exact hy b (by simpa [hlast] using hb)

theorem StopsAfter.append {x y : List α} (hx : StopsAfter token x) (hy : StopsAfter token y) :
    StopsAfter token (x ++ y) := by
  intro b hb
  rw [List.head?_append] at hb
  cases hhead : x.head? with
  | none => exact hy b (by simpa [hhead] using hb)
  | some c => exact hx b (by simpa [hhead] using hb)

/-! ## Parts of a text -/

theorem Occurs.self (word : List α) : Occurs token word word :=
  ⟨[], [], by simp, stopsBefore_nil, stopsAfter_nil⟩

/-- What stops beside a part of the text does not join on to a word of the part. -/
theorem Occurs.extend {before after : List α} (h : Occurs token word text)
    (hbefore : StopsBefore token before) (hafter : StopsAfter token after) :
    Occurs token word (before ++ (text ++ after)) := by
  obtain ⟨before', after', rfl, hbefore', hafter'⟩ := h
  refine ⟨before ++ before', after' ++ after, by simp, ?_, ?_⟩
  · exact hbefore.append hbefore'
  · exact hafter'.append hafter

/-- **A separator cuts no word**: a delimited word stands on one side of a letter outside
    the alphabet. -/
theorem Occurs.cut {x y : List α} {c : α} (hc : token c = false)
    (hword : ∀ b ∈ word, token b = true) (hne : word ≠ [])
    (h : Occurs token word (x ++ c :: y)) : Occurs token word x ∨ Occurs token word y := by
  obtain ⟨before, after, htext, hbefore, hafter⟩ := h
  rcases List.append_eq_append_iff.mp htext with ⟨mid, hb, hy⟩ | ⟨mid, hx, hwa⟩
  · -- the separator is in front of the word, or is its first letter
    cases mid with
    | nil =>
      cases word with
      | nil => exact absurd rfl hne
      | cons w ws =>
        have hw : c = w := by simpa using (List.cons.inj hy).1
        exact absurd (hword w (by simp)) (by simp [← hw, hc])
    | cons m mid =>
      refine .inr ⟨mid, after, (List.cons.inj hy).2, ?_, hafter⟩
      intro b hm
      refine hbefore b ?_
      rw [hb, List.getLast?_append, List.getLast?_cons]
      simp [Option.mem_def.mp hm]
  · rcases List.append_eq_append_iff.mp hwa with ⟨rest, hmid, hafter'⟩ | ⟨rest, hw, hcy⟩
    · -- the separator comes after the word
      refine .inl ⟨before, rest, by rw [hx, hmid], hbefore, ?_⟩
      intro b hr
      refine hafter b ?_
      rw [hafter', List.head?_append]
      simp [Option.mem_def.mp hr]
    · cases rest with
      | nil => exact .inl ⟨before, [], by simp [hx, hw], hbefore, stopsAfter_nil⟩
      | cons r rest =>
        -- the separator would be a letter of the word
        have hr : c = r := (List.cons.inj hcy).1
        exact absurd (hword r (by simp [hw])) (by simp [← hr, hc])

/-- A separator of several letters is passed one letter at a time. -/
theorem Occurs.cut_all {sep x y : List α} (hsep : ∀ b ∈ sep, token b = false) (hne : sep ≠ [])
    (hword : ∀ b ∈ word, token b = true) (hword' : word ≠ [])
    (h : Occurs token word (x ++ (sep ++ y))) : Occurs token word x ∨ Occurs token word y := by
  induction sep generalizing x with
  | nil => exact absurd rfl hne
  | cons c sep ih =>
    rcases h.cut (hsep c (by simp)) hword hword' with hx | hrest
    · exact .inl hx
    · by_cases hsep' : sep = []
      · exact .inr (by simpa [hsep'] using hrest)
      · have hrest : Occurs token word ([] ++ (sep ++ y)) := hrest
        rcases ih (fun b hb => hsep b (by simp [hb])) hsep' hrest with hnil | hy
        · obtain ⟨before, after, htext, -, -⟩ := hnil
          simp [hword'] at htext
        · exact .inr hy

/-! ## Joined texts -/

theorem mem_intercalate_of_mem {sep part : List α} {parts : List (List α)} {b : α}
    (hpart : part ∈ parts) (hb : b ∈ part) : b ∈ sep.intercalate parts := by
  obtain ⟨i, hi⟩ := List.mem_iff_getElem?.mp hpart
  refine List.mem_flatten.mpr ⟨part, List.mem_iff_getElem?.mpr ⟨2 * i, ?_⟩, hb⟩
  rw [List.getElem?_intersperse_two_mul, hi]

theorem mem_intercalate {sep : List α} {parts : List (List α)} {b : α}
    (h : b ∈ sep.intercalate parts) : b ∈ sep ∨ ∃ part ∈ parts, b ∈ part := by
  induction parts with
  | nil => simp [List.intercalate] at h
  | cons p rest ih =>
    cases rest with
    | nil => exact .inr ⟨p, by simp, by simpa [List.intercalate] using h⟩
    | cons q rest =>
      rw [List.intercalate_cons_cons, List.mem_append, List.mem_append] at h
      rcases h with (hp | hsep) | hrest
      · exact .inr ⟨p, by simp, hp⟩
      · exact .inl hsep
      · refine (ih hrest).imp id fun found => ?_
        obtain ⟨part, hpart, hb⟩ := found
        exact ⟨part, List.mem_cons_of_mem p hpart, hb⟩

/-- A delimited word of a part is one of the joined text. -/
theorem Occurs.intercalate {c : α} (hc : token c = false) {part : List α}
    {parts : List (List α)} (hpart : part ∈ parts) (h : Occurs token word part) :
    Occurs token word ([c].intercalate parts) := by
  induction parts with
  | nil => simp at hpart
  | cons p rest ih =>
    cases rest with
    | nil =>
      have hp : part = p := by simpa using hpart
      simpa [List.intercalate, ← hp] using h
    | cons q rest =>
      rw [List.intercalate_cons_cons, List.append_assoc]
      rcases List.mem_cons.mp hpart with hp | hp
      · have hafter := stopsAfter_cons ([c].intercalate (q :: rest)) hc
        simpa [hp] using (hp ▸ h).extend stopsBefore_nil hafter
      · have hbefore := stopsBefore_concat p hc
        simpa using (ih hp).extend hbefore stopsAfter_nil

/-- A delimited word of a joined text is one of a part, whatever letters outside the
    alphabet join the parts. -/
theorem Occurs.of_intercalate {sep : List α} (hsep : ∀ b ∈ sep, token b = false)
    (hne : sep ≠ []) (hword : ∀ b ∈ word, token b = true) (hword' : word ≠ [])
    {parts : List (List α)} (h : Occurs token word (sep.intercalate parts)) :
    ∃ part ∈ parts, Occurs token word part := by
  induction parts with
  | nil =>
    obtain ⟨before, after, htext, -, -⟩ := h
    simp [List.intercalate, hword'] at htext
  | cons p rest ih =>
    cases rest with
    | nil => exact ⟨p, by simp, by simpa [List.intercalate] using h⟩
    | cons q rest =>
      rw [List.intercalate_cons_cons, List.append_assoc] at h
      rcases h.cut_all hsep hne hword hword' with hp | hq
      · exact ⟨p, by simp, hp⟩
      · obtain ⟨part, hpart, hocc⟩ := ih hq
        exact ⟨part, List.mem_cons_of_mem p hpart, hocc⟩

end Delimited
