import Hangang.Framework.Delimited
import Hangang.Proxy.Headers

/-! # Stripped Cookies

    `strip_request_cookies` takes the listed cookies out of a request before it
    goes to the upstream. Two readings of the `Cookie` field meet in it: the pairs
    are split at semicolons outside quotes, but the result is kept only if a scan
    that knows no quotes finds no listed name in it.

    * **Safety**: behind the function no listed name stands delimited in the
      field, so no way of splitting it at semicolons shows a listed cookie.
    * **Minimality**: where the quotes are balanced and the other pairs do not hold
      a listed name themselves, just the listed pairs are gone. -/

open Bytes Http

namespace Proxy

/-! ## The scan -/

/-- `name` stands in `bytes` with no token byte next to it. -/
abbrev NamesCookie (bytes name : Bytes) : Prop := Delimited.Occurs isCookieTokenByte name bytes

/-- What `validate_strip_request_cookies` lets through as a name. -/
def ValidCookieName (name : Bytes) : Prop :=
  name ≠ [] ∧ ∀ b ∈ name, isCookieTokenByte b = true

theorem any_eq_false_iff {b? : Option UInt8} :
    (!b?.any isCookieTokenByte) = true ↔ ∀ b ∈ b?, isCookieTokenByte b = false := by
  cases b? <;> simp

/-- The scan finds just the delimited occurrences. -/
theorem containsCookieName_iff {bytes name : Bytes} (hname : name ≠ []) :
    containsCookieName bytes name = true ↔ NamesCookie bytes name := by
  have hpos : 0 < name.length := List.length_pos_iff.mpr hname
  constructor
  · intro h
    rw [containsCookieName] at h
    split at h
    · cases h
    · obtain ⟨start, hstart, hfound⟩ := List.any_eq_true.mp h
      rw [List.mem_range] at hstart
      simp only [Bool.and_eq_true, Bool.or_eq_true, beq_iff_eq, any_eq_false_iff] at hfound
      obtain ⟨⟨hat, hbefore⟩, hafter⟩ := hfound
      refine ⟨bytes.take start, bytes.drop (start + name.length), ?_, ?_, ?_⟩
      · have hsplit := List.take_append_drop name.length (bytes.drop start)
        rw [hat, List.drop_drop] at hsplit
        rw [hsplit, List.take_append_drop]
      · -- the byte in front of the occurrence is the last one taken
        intro b hb
        by_cases h0 : start = 0
        · simp [h0] at hb
        · refine hbefore.resolve_left h0 b ?_
          rw [List.getLast?_take, if_neg h0] at hb
          have hin : start - 1 < bytes.length := by omega
          simpa [List.getElem?_eq_getElem hin] using hb
      · intro b hb
        exact hafter b (by simpa using hb)
  · intro h
    obtain ⟨before, after, rfl, hbefore, hafter⟩ := h
    rw [containsCookieName, if_neg (by simp [hname]; omega), List.any_eq_true]
    refine ⟨before.length, by simp; omega, ?_⟩
    simp only [Bool.and_eq_true, Bool.or_eq_true, beq_iff_eq, any_eq_false_iff]
    refine ⟨⟨by simp, ?_⟩, ?_⟩
    · by_cases hnil : before = []
      · exact .inl (by simp [hnil])
      · refine .inr fun b hb => hbefore b ?_
        have hlen : 0 < before.length := List.length_pos_iff.mpr hnil
        rw [List.getElem?_append_left (by omega)] at hb
        rwa [List.getLast?_eq_getElem?]
    · intro b hb
      refine hafter b ?_
      rw [← List.append_assoc, List.getElem?_append_right (by simp)] at hb
      simpa [List.head?_eq_getElem?] using hb

/-! ## The name of a pair -/

variable {b : UInt8} {x y : Bytes} {pairs names : List Bytes}

theorem not_token_of_whitespace (h : isWhitespaceByte b = true) :
    isCookieTokenByte b = false := by
  simp only [isWhitespaceByte, Bool.or_eq_true, beq_iff_eq] at h
  rcases h with (((h | h) | h) | h) | h <;> simp only [h] <;> decide

/-- Trimming takes white space only. -/
theorem exists_trimAscii (x : Bytes) : ∃ before after, x = before ++ (trimAscii x ++ after) ∧
    (∀ b ∈ before, isWhitespaceByte b = true) ∧ ∀ b ∈ after, isWhitespaceByte b = true := by
  refine ⟨x.takeWhile isWhitespaceByte,
    (x.dropWhile isWhitespaceByte).rtakeWhile isWhitespaceByte, ?_, ?_, ?_⟩
  · rw [trimAscii, List.rdropWhile_append_rtakeWhile, List.takeWhile_append_dropWhile]
  · intro b hb
    exact List.mem_takeWhile_imp hb
  · intro b hb
    exact List.mem_rtakeWhile_imp hb

theorem NamesCookie.of_trimAscii {name : Bytes} (h : NamesCookie (trimAscii x) name) :
    NamesCookie x name := by
  obtain ⟨before, after, hx, hbefore, hafter⟩ := exists_trimAscii x
  rw [hx]
  apply h.extend
  · exact Delimited.stopsBefore_of_forall fun b hb => not_token_of_whitespace (hbefore b hb)
  · exact Delimited.stopsAfter_of_forall fun b hb => not_token_of_whitespace (hafter b hb)

/-- The name of a pair stands delimited in the pair. -/
theorem namesCookie_cookieName (pair : Bytes) : NamesCookie pair (cookieName pair) := by
  unfold cookieName
  cases hsplit : splitOnce 61 pair with
  | none => exact Delimited.Occurs.self pair
  | some parts =>
    obtain ⟨name, value⟩ := parts
    have hname : NamesCookie name (trimAscii name) :=
      NamesCookie.of_trimAscii (Delimited.Occurs.self (trimAscii name))
    rw [(splitOnce_eq_some.mp hsplit).1]
    have hequals := Delimited.stopsAfter_cons value (show isCookieTokenByte 61 = false by decide)
    simpa using hname.extend Delimited.stopsBefore_nil hequals

/-- A text cut at semicolons, in whatever way, has no pair whose name does not stand
    delimited in the text. -/
theorem namesCookie_of_piece {value piece : Bytes} {pieces : List Bytes}
    (hcut : [59].intercalate pieces = value) (hpiece : piece ∈ pieces) :
    NamesCookie value (cookieName (trimAscii piece)) := by
  rw [← hcut]
  apply Delimited.Occurs.intercalate (show isCookieTokenByte 59 = false by decide) hpiece
  exact NamesCookie.of_trimAscii (namesCookie_cookieName (trimAscii piece))

/-! ## The pairs of a value -/

/-- The inside of a quoted string, where a backslash takes the next byte with it. -/
inductive QuotedText : Bytes → Prop
  | nil : QuotedText []
  | escape (b : UInt8) {text : Bytes} : QuotedText text → QuotedText (92 :: b :: text)
  | byte {b : UInt8} {text : Bytes} : b ≠ 92 → b ≠ 34 → QuotedText text → QuotedText (b :: text)

/-- A text whose quoted strings are closed and whose semicolons are all inside of them. -/
inductive CookiePair : Bytes → Prop
  | nil : CookiePair []
  | byte {b : UInt8} {text : Bytes} : b ≠ 34 → b ≠ 59 → CookiePair text → CookiePair (b :: text)
  | quoted {inside text : Bytes} :
    QuotedText inside → CookiePair text → CookiePair (34 :: (inside ++ 34 :: text))

/-- The value cut at its unquoted semicolons, and nowhere else. -/
def CutsPairs (value : Bytes) (pairs : List Bytes) : Prop :=
  pairs ≠ [] ∧ [59].intercalate pairs = value ∧ ∀ pair ∈ pairs, CookiePair pair

theorem QuotedText.append (hx : QuotedText x) (hy : QuotedText y) :
    QuotedText (x ++ y) := by
  induction hx with
  | nil => exact hy
  | escape b _ ih => exact .escape b ih
  | byte hslash hquote _ ih => exact .byte hslash hquote ih

theorem CookiePair.append (hx : CookiePair x) (hy : CookiePair y) :
    CookiePair (x ++ y) := by
  induction hx with
  | nil => exact hy
  | byte hquote hsemicolon _ ih => exact .byte hquote hsemicolon ih
  | quoted hinside _ ih => simpa using CookiePair.quoted hinside ih

/-- What the loop has read of a pair. -/
def ReadPair (pair : Bytes) : Bool → Prop
  | false => CookiePair pair
  | true => ∃ text inside, pair = text ++ 34 :: inside ∧ CookiePair text ∧ QuotedText inside

/-- The loop cuts the rest, with what it has read in front, at unquoted semicolons. -/
theorem cutsPairs_of_splitCookiePairsFrom {pair rest : Bytes} {quoted : Bool} {pairs : List Bytes}
    (hread : ReadPair pair quoted) (h : splitCookiePairsFrom pair quoted rest = some pairs) :
    CutsPairs (pair ++ rest) pairs := by
  -- by the branches of the loop: end, escape, quote, cut and any other byte
  fun_induction splitCookiePairsFrom pair quoted rest generalizing pairs with
  | case1 => cases h
  | case2 pair quoted hquoted =>
    obtain rfl := Option.some.inj h
    rw [Bool.not_eq_true] at hquoted
    subst hquoted
    refine ⟨by simp, by simp [List.intercalate], ?_⟩
    simpa [ReadPair] using hread
  | case3 => cases h
  | case4 pair quoted b hescape escaped rest ih =>
    simp only [Bool.and_eq_true, beq_iff_eq] at hescape
    obtain ⟨rfl, rfl⟩ := hescape
    obtain ⟨text, inside, rfl, htext, hinside⟩ := hread
    have := ih ⟨text, inside ++ [92, escaped], by simp, htext,
      hinside.append (.escape escaped .nil)⟩ h
    simpa using this
  | case5 pair quoted b rest hescape hquote ih =>
    obtain rfl : b = 34 := by simpa using hquote
    rw [List.append_cons]
    refine ih ?_ h
    -- the quote opens a string, or closes the one that was open
    cases quoted with
    | false => exact ⟨pair, [], rfl, hread, .nil⟩
    | true =>
      obtain ⟨text, inside, rfl, htext, hinside⟩ := hread
      simpa [ReadPair] using htext.append (.quoted hinside .nil)
  | case6 pair quoted b rest hescape hquote hcut ih =>
    simp only [Bool.and_eq_true, beq_iff_eq, Bool.not_eq_true'] at hcut
    obtain ⟨rfl, rfl⟩ := hcut
    obtain ⟨others, hothers, rfl⟩ := Option.map_eq_some_iff.mp h
    obtain ⟨hne, hjoin, hpairs⟩ := ih .nil hothers
    obtain ⟨next, more, rfl⟩ := List.exists_cons_of_ne_nil hne
    refine ⟨by simp, ?_, ?_⟩
    · rw [List.intercalate_cons_cons, hjoin, List.append_assoc]
      rfl
    · simpa using ⟨hread, by simpa using hpairs⟩
  | case7 pair quoted b rest hescape hquote hcut ih =>
    have hquote : b ≠ 34 := by simpa using hquote
    rw [List.append_cons]
    refine ih ?_ h
    cases quoted with
    | false => exact CookiePair.append hread (.byte hquote (by simpa using hcut) .nil)
    | true =>
      obtain ⟨text, inside, rfl, htext, hinside⟩ := hread
      exact ⟨text, inside ++ [b], by simp, htext,
        hinside.append (.byte (by simpa using hescape) hquote .nil)⟩

@[simp] theorem splitCookiePairsFrom_quote (pair : Bytes) (quoted : Bool) (rest : Bytes) :
    splitCookiePairsFrom pair quoted (34 :: rest) =
      splitCookiePairsFrom (pair ++ [34]) (!quoted) rest := by
  rw [splitCookiePairsFrom.eq_def]
  rfl

@[simp] theorem splitCookiePairsFrom_semicolon (pair rest : Bytes) :
    splitCookiePairsFrom pair false (59 :: rest) =
      (splitCookiePairsFrom [] false rest).map (pair :: ·) := by
  rw [splitCookiePairsFrom.eq_def]
  rfl

/-- Quoted text is read to its end. -/
theorem splitCookiePairsFrom_quotedText {inside : Bytes} (h : QuotedText inside)
    (pair rest : Bytes) : splitCookiePairsFrom pair true (inside ++ rest) =
      splitCookiePairsFrom (pair ++ inside) true rest := by
  induction h generalizing pair with
  | nil => simp
  | escape b _ ih => simp [splitCookiePairsFrom, ih]
  | byte hslash hquote _ ih =>
    rw [List.cons_append, splitCookiePairsFrom.eq_def]
    simp [hslash, hquote, ih]

/-- A pair is read to its end. -/
theorem splitCookiePairsFrom_cookiePair {text : Bytes} (h : CookiePair text) (pair rest : Bytes) :
    splitCookiePairsFrom pair false (text ++ rest) =
      splitCookiePairsFrom (pair ++ text) false rest := by
  induction h generalizing pair with
  | nil => simp
  | byte hquote hsemicolon _ ih =>
    rw [List.cons_append, splitCookiePairsFrom.eq_def]
    simp [hquote, hsemicolon, ih]
  | quoted hinside _ ih => simp [splitCookiePairsFrom_quotedText hinside, ih]

/-- **The pairs are the cut at unquoted semicolons**, and there are none just where a quote
    is left open. -/
theorem splitCookiePairs_eq_some {value : Bytes} :
    splitCookiePairs value = some pairs ↔ CutsPairs value pairs := by
  constructor
  · exact fun h => @cutsPairs_of_splitCookiePairsFrom [] value false pairs .nil h
  · rintro ⟨hne, hjoin, hpairs⟩
    induction pairs generalizing value with
    | nil => exact absurd rfl hne
    | cons pair pairs ih =>
      -- the loop reads the first pair to its end, and then cuts
      have hpair := splitCookiePairsFrom_cookiePair (hpairs pair (by simp)) []
      subst hjoin
      cases pairs with
      | nil =>
        have := hpair []
        simpa [List.intercalate, splitCookiePairs, splitCookiePairsFrom] using this
      | cons next more =>
        have hrest := ih (by simp) rfl fun p hp => hpairs p (List.mem_cons_of_mem pair hp)
        rw [List.intercalate_cons_cons, List.append_assoc, splitCookiePairs, hpair]
        simpa [splitCookiePairs] using hrest

/-! ## The pairs that are kept -/

/-- The pairs of the field that are not empty and not listed. -/
def otherPairs (names pairs : List Bytes) : List Bytes :=
  (pairs.map trimAscii).filter fun pair => !pair.isEmpty && !names.contains (cookieName pair)

/-- The text the other pairs are joined to. -/
def keptCookies (names pairs : List Bytes) : Bytes :=
  (ascii "; ").intercalate (otherPairs names pairs)

/-- Splitting makes up no byte. -/
theorem mem_of_splitCookiePairs {values : List Bytes} {pairs : List (List Bytes)}
    (h : values.mapM splitCookiePairs = some pairs) {pair : Bytes} (hpair : pair ∈ pairs.flatten)
    (hb : b ∈ pair) : ∃ value ∈ values, b ∈ value := by
  induction values generalizing pairs with
  | nil =>
    simp only [List.mapM_nil, Option.pure_def, Option.some.injEq] at h
    simp [← h] at hpair
  | cons value values ih =>
    obtain ⟨first, hfirst, h⟩ := Option.bind_eq_some_iff.mp ((List.mapM_cons).symm.trans h)
    obtain ⟨rest, hrest, h⟩ := Option.bind_eq_some_iff.mp h
    obtain rfl := Option.some.inj h
    rcases List.mem_append.mp (List.flatten_cons ▸ hpair) with hp | hp
    · obtain ⟨-, hjoin, -⟩ := splitCookiePairs_eq_some.mp hfirst
      exact ⟨value, by simp, hjoin ▸ Delimited.mem_intercalate_of_mem hp hb⟩
    · obtain ⟨value', hvalue, hbyte⟩ := ih hrest hp
      exact ⟨value', List.mem_cons_of_mem value hvalue, hbyte⟩

/-- A byte a field value may hold. -/
def isValueByte (b : UInt8) : Bool := (32 ≤ b && b != 127) || b == 9

theorem headerValue_eq_some :
    headerValue x = some y ↔ (∀ b ∈ x, isValueByte b = true) ∧ x = y := by
  rw [headerValue, Option.ite_none_right_eq_some, List.all_eq_true, Option.some.injEq]
  rfl

theorem mem_trimAscii (h : b ∈ trimAscii x) : b ∈ x := by
  obtain ⟨before, after, hx, -, -⟩ := exists_trimAscii x
  rw [hx]
  simp [h]

/-- The other pairs, joined, are a field value again. -/
theorem headerValue_keptCookies {values : List Bytes} {pairs : List (List Bytes)}
    (h : values.mapM splitCookiePairs = some pairs)
    (hvalues : ∀ value ∈ values, headerValue value = some value) :
    headerValue (keptCookies names pairs.flatten) = some (keptCookies names pairs.flatten) := by
  refine headerValue_eq_some.mpr ⟨fun b hb => ?_, rfl⟩
  rcases Delimited.mem_intercalate hb with hsep | ⟨pair, hpair, hb⟩
  · exact (show ∀ b ∈ ascii "; ", isValueByte b = true by decide +kernel) b hsep
  · obtain ⟨raw, hraw, rfl⟩ := List.mem_map.mp (List.mem_filter.mp hpair).1
    obtain ⟨value, hvalue, hbyte⟩ := mem_of_splitCookiePairs h hraw (mem_trimAscii hb)
    exact (headerValue_eq_some.mp (hvalues value hvalue)).1 b hbyte

theorem otherPairs_ne_nil {pair : Bytes} (h : pair ∈ otherPairs names pairs) : pair ≠ [] := by
  have hkept := (List.mem_filter.mp h).2
  intro hnil
  simp [hnil] at hkept

theorem keptCookies_eq_nil :
    keptCookies names pairs = [] ↔ otherPairs names pairs = [] := by
  rw [keptCookies]
  cases hpairs : otherPairs names pairs with
  | nil => simp [List.intercalate]
  | cons p rest =>
    have hp : p ≠ [] := otherPairs_ne_nil (by rw [hpairs]; simp)
    cases rest with
    | nil => simpa [List.intercalate] using hp
    | cons q rest => simp [hp]

/-! ## The field behind the function -/

section field

variable {headers : Fields} {names : List Bytes} {pairs : List (List Bytes)}

/-- The field that is left, where the quotes are balanced. -/
theorem getAll_stripRequestCookies_of_some
    (hpairs : (headers.getAll (ascii "cookie")).mapM splitCookiePairs = some pairs) :
    (stripRequestCookies headers names).getAll (ascii "cookie") =
      if names.any (containsCookieName (keptCookies names pairs.flatten)) ||
        (keptCookies names pairs.flatten).isEmpty then []
      else (headerValue (keptCookies names pairs.flatten)).toList := by
  unfold stripRequestCookies
  split
  · next habsent =>
    have habsent : headers.getAll (ascii "cookie") = [] := by
      simpa [Fields.containsKey] using habsent
    rw [habsent] at hpairs ⊢
    obtain rfl := Option.some.inj hpairs
    exact (if_pos (Bool.or_true _)).symm
  · rw [hpairs]
    show Fields.getAll (if names.any (containsCookieName (keptCookies names pairs.flatten)) ||
      (keptCookies names pairs.flatten).isEmpty then _ else _) _ = _
    split
    · simp
    · split
      · next value hvalue =>
        have hvalue : headerValue (keptCookies names pairs.flatten) = some value := hvalue
        simp [hvalue]
      · next hvalue =>
        have hvalue : headerValue (keptCookies names pairs.flatten) = none := hvalue
        simp [hvalue]

theorem getAll_stripRequestCookies_of_none
    (hpairs : (headers.getAll (ascii "cookie")).mapM splitCookiePairs = none) :
    (stripRequestCookies headers names).getAll (ascii "cookie") = [] := by
  unfold stripRequestCookies
  split
  · next habsent => simpa [Fields.containsKey] using habsent
  · simp [hpairs]

/-- No listed name stands delimited in what is left. -/
theorem not_namesCookie_of_mem {name value : Bytes} (hname : name ∈ names) (hne : name ≠ [])
    (h : value ∈ (stripRequestCookies headers names).getAll (ascii "cookie")) :
    ¬NamesCookie value name := by
  cases hpairs : (headers.getAll (ascii "cookie")).mapM splitCookiePairs with
  | none =>
    rw [getAll_stripRequestCookies_of_none hpairs] at h
    simp at h
  | some pairs =>
    rw [getAll_stripRequestCookies_of_some hpairs] at h
    split at h
    · simp at h
    · next hscan =>
      intro hfound
      rw [Option.mem_toList, headerValue_eq_some] at h
      rw [← h.2, ← containsCookieName_iff hne] at hfound
      apply hscan
      rw [List.any_eq_true.mpr ⟨name, hname, hfound⟩, Bool.true_or]

/-- Where no other pair names a listed cookie, the scan does not find one in their join:
    neither the semicolon nor the space is part of a name. -/
theorem scan_keptCookies (hnames : ∀ name ∈ names, ValidCookieName name)
    (hclean : ∀ pair ∈ otherPairs names pairs.flatten, ∀ name ∈ names, ¬NamesCookie pair name) :
    names.any (containsCookieName (keptCookies names pairs.flatten)) = false := by
  rw [List.any_eq_false]
  intro name hname hfound
  obtain ⟨hne, htoken⟩ := hnames name hname
  rw [containsCookieName_iff hne] at hfound
  have hsep : ∀ b ∈ ascii "; ", isCookieTokenByte b = false := by decide +kernel
  obtain ⟨pair, hpair, hocc⟩ := hfound.of_intercalate hsep (by decide) htoken hne
  exact hclean pair hpair name hname hocc

end field

/-- **Stripped cookies**: in what is left of the field no listed name stands delimited, and
    so no pair of any cut of it at semicolons, be they quoted or not, has a listed name. If
    the quotes of every value are balanced and the other pairs do not name a listed cookie,
    the other pairs are what is left, joined by a semicolon and a space. The pairs of a value
    are its cut at the unquoted semicolons. -/
theorem strip_request_cookies_safe_minimal (headers : Fields) (names : List Bytes)
    (hnames : ∀ name ∈ names, ValidCookieName name)
    (hvalues : ∀ value ∈ headers.getAll (ascii "cookie"), headerValue value = some value) :
    (∀ value ∈ (stripRequestCookies headers names).getAll (ascii "cookie"), ∀ name ∈ names,
      ¬NamesCookie value name ∧
        ∀ pieces, [59].intercalate pieces = value →
          ∀ piece ∈ pieces, cookieName (trimAscii piece) ≠ name) ∧
    (∀ pairs, (headers.getAll (ascii "cookie")).mapM splitCookiePairs = some pairs →
      (∀ pair ∈ otherPairs names pairs.flatten, ∀ name ∈ names, ¬NamesCookie pair name) →
      (stripRequestCookies headers names).getAll (ascii "cookie") =
        if otherPairs names pairs.flatten = [] then []
        else [(ascii "; ").intercalate (otherPairs names pairs.flatten)]) ∧
    ∀ value pairs, splitCookiePairs value = some pairs ↔ CutsPairs value pairs := by
  refine ⟨?_, ?_, fun _ _ => splitCookiePairs_eq_some⟩
  · intro value hvalue name hname
    have hclean := not_namesCookie_of_mem hname (hnames name hname).1 hvalue
    refine ⟨hclean, ?_⟩
    intro pieces hcut piece hpiece heq
    exact hclean (heq ▸ namesCookie_of_piece hcut hpiece)
  · intro pairs hpairs hclean
    rw [getAll_stripRequestCookies_of_some hpairs]
    simp only [scan_keptCookies hnames hclean, headerValue_keptCookies hpairs hvalues,
      Bool.false_or, List.isEmpty_iff, keptCookies_eq_nil, Option.toList_some]
    rfl

/-- A session cookie between two others, one of them quoted with a semicolon inside. -/
theorem strip_request_cookies_safe_minimal_session :
    (stripRequestCookies
        (Fields.empty.insert (ascii "cookie") (ascii "a=\"x;y\"; sid=1 ;b=2"))
        [ascii "sid"]).getAll (ascii "cookie") = [ascii "a=\"x;y\"; b=2"] := by
  have hall := strip_request_cookies_safe_minimal
    (Fields.empty.insert (ascii "cookie") (ascii "a=\"x;y\"; sid=1 ;b=2")) [ascii "sid"]
    (by unfold ValidCookieName; decide +kernel) (by decide +kernel)
  have hpairs := hall.2.1 [[ascii "a=\"x;y\"", ascii " sid=1 ", ascii "b=2"]] (by decide +kernel)
  rw [hpairs]
  · decide +kernel
  · intro pair hpair name hname
    have hne : name ≠ [] := by
      rw [List.mem_singleton.mp hname]
      decide +kernel
    rw [← containsCookieName_iff hne]
    clear hne
    revert name pair
    decide +kernel

end Proxy
