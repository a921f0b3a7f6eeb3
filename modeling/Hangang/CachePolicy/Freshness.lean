import Hangang.Cache.Entry
import Hangang.Framework.Decimal

/-! # Cache Freshness

    `response_ttl` decides whether a response may be stored and for how long, and
    `cached_response` recomputes its age when it is served.

    * **Directives**: the values of `Cache-Control` are cut at the commas outside quotes.
      An accepted response has no comma inside quotes, so that a cache which does not know
      quotes reads the same directives.
    * **Age**: the remaining lifetime is stored in milliseconds and the age in seconds;
      both roundings go to the safe side. -/

open Bytes Http IpAddr

namespace CachePolicy

structure RouteCache where
  ttlSeconds : Nat := 30
  maxTtlSeconds : Nat := 300
  deriving DecidableEq, Repr

def maxTtlSecondsLimit : Nat := 86400

def RouteCache.validate (route : RouteCache) : Bool :=
  decide (1 ≤ route.ttlSeconds ∧ route.ttlSeconds ≤ route.maxTtlSeconds ∧
    route.maxTtlSeconds ≤ maxTtlSecondsLimit)

/-! ## Directives -/

/-- The loop of `split_directives`, with the text since the last cut. -/
def splitLoop (quoted escaped : Bool) (piece : Bytes) : Bytes → Option (List Bytes)
  | [] => if quoted || escaped then none else some [trimWhitespace piece]
  | c :: rest =>
    if escaped then splitLoop quoted false (piece ++ [c]) rest
    else if quoted && c == 92 then splitLoop quoted true (piece ++ [c]) rest
    else if c == 34 then splitLoop (!quoted) false (piece ++ [c]) rest
    else if !quoted && c == 44 then
      (splitLoop quoted false [] rest).map (trimWhitespace piece :: ·)
    else splitLoop quoted false (piece ++ [c]) rest

def splitDirectives (value : Bytes) : Option (List Bytes) := splitLoop false false [] value

/-- A directive: its name in lower case and its argument. -/
abbrev Directive : Type := Bytes × Option Bytes

def directiveName (piece : Bytes) : Bytes :=
  trimWhitespace ((splitOnce 61 piece).elim piece Prod.fst)

def directive (piece : Bytes) : Directive :=
  ((directiveName piece).map toAsciiLowercase,
    (splitOnce 61 piece).map fun parts => trimWhitespace parts.2)

def deltaSeconds (value : Option Bytes) : Option Nat :=
  value.bind fun value =>
    let digits :=
      if value.head? = some 34 ∧ value.tail.getLast? = some 34 then value.tail.dropLast else value
    if digits ≠ [] ∧ digits.all isAsciiDigit = true ∧ readDecimal digits < 2 ^ 64 then
      some (readDecimal digits)
    else none

/-- The state of the loop over the directives. -/
structure Ages where
  seen : List Bytes
  maxAge : Option Nat
  sharedMaxAge : Option Nat

def forbiddenDirectives : List Bytes := [ascii "no-store", ascii "private", ascii "no-cache"]

def flagDirectives : List Bytes :=
  [ascii "public", ascii "must-revalidate", ascii "proxy-revalidate", ascii "no-transform"]

def takeDirective (ages : Ages) (d : Directive) : Option Ages :=
  if d.1 ∈ ages.seen then none
  else
    let seen := d.1 :: ages.seen
    if d.1 ∈ forbiddenDirectives then none
    else if d.1 = ascii "max-age" then
      (deltaSeconds d.2).map fun seconds => { ages with seen, maxAge := some seconds }
    else if d.1 = ascii "s-maxage" then
      (deltaSeconds d.2).map fun seconds => { ages with seen, sharedMaxAge := some seconds }
    else if d.1 ∈ flagDirectives then if d.2.isSome then none else some { ages with seen }
    else none

section

-- How the `http` crate reads a header name, and `httpdate` a date, in seconds since the epoch.
variable (parseName : Bytes → Option Bytes) (parseDate : Bytes → Option Nat)

def readDirective (piece : Bytes) : Option Directive :=
  if directiveName piece = [] ∨ parseName (directiveName piece) = none then none
  else some (directive piece)

def valueDirectives (value : Bytes) : Option (List Directive) := do
  let text ← toStr value
  let pieces ← splitDirectives text
  pieces.mapM (readDirective parseName)

def cacheDirectives (headers : HeaderMap) : Option (List Directive) :=
  ((headers.getAll (ascii "cache-control")).mapM (valueDirectives parseName)).map List.flatten

/-! ## Lifetimes -/

/-- A field that may stand once. -/
def oneHeader (headers : HeaderMap) (name : Bytes) : Option (Option Bytes) :=
  match headers.getAll name with
  | [] => some none
  | [value] => (toStr value).map some
  | _ => none

def oneHttpDate (headers : HeaderMap) (name : Bytes) : Option (Option Nat) := do
  match ← oneHeader headers name with
  | none => some none
  | some text => (parseDate text).map some

/-- `u64::from_str`. -/
def parseU64 (text : Bytes) : Option Nat :=
  let digits := if text.head? = some 43 then text.tail else text
  if digits ≠ [] ∧ digits.all isAsciiDigit = true ∧ readDecimal digits < 2 ^ 64 then
    some (readDecimal digits)
  else none

def oneDeltaHeader (headers : HeaderMap) (name : Bytes) : Option (Option Nat) := do
  match ← oneHeader headers name with
  | none => some none
  | some text => (parseU64 (trimWhitespace text)).map some

def unsupportedContentType (headers : HeaderMap) : Bool :=
  match headers.getAll (ascii "content-type") with
  | [] => false
  | [value] => (toStr value).all fun text =>
    eqIgnoreAsciiCase (trimWhitespace (text.takeWhile (· != 59))) (ascii "text/event-stream")
  | _ => true

def varyStarOrInvalid (headers : HeaderMap) : Bool :=
  (headers.getAll (ascii "vary")).any fun value => (toStr value).all fun text =>
    (splitOn 44 text).any fun name =>
      trimWhitespace name == ascii "*" || (trimWhitespace name).isEmpty ||
        (parseName (trimWhitespace name)).isNone

/-- Nanoseconds of a second. -/
def second : Nat := 1000000000

/-- How long ago the response was dated, in seconds rounded up; a date to come counts as now. -/
def apparentAge (now : Nat) (date : Option Nat) : Nat :=
  date.elim 0 fun date => (now - date * second + (second - 1)) / second

/-- `Expires` minus `Date`; a response without a date is dated when it arrives. -/
def expiresAfter (now : Nat) (date : Option Nat) (expires : Nat) : Option Nat :=
  let base := date.elim now (· * second)
  if base ≤ expires * second then some ((expires * second - base) / second) else none

/-- The lifetime that the response was given. -/
def lifetimeSeconds (now : Nat) (headers : HeaderMap) (route : RouteCache) (ages : Ages)
    (date : Option Nat) : Option Nat :=
  match ages.sharedMaxAge.or ages.maxAge with
  | some seconds => some seconds
  | none => do
    match ← oneHttpDate parseDate headers (ascii "expires") with
    | some expires => expiresAfter now date expires
    | none => some route.ttlSeconds

/-- The lifetime that is left in milliseconds, and the age in seconds. -/
def responseTtl (now : Nat) (headers : HeaderMap) (status : Nat) (route : RouteCache) :
    Option (Nat × Nat) :=
  if status ≠ 200 ∨ headers.getAll (ascii "set-cookie") ≠ [] ∨
      headers.getAll (ascii "content-range") ≠ [] ∨ headers.getAll (ascii "trailer") ≠ [] ∨
      unsupportedContentType headers = true ∨ varyStarOrInvalid parseName headers = true ∨
      route.validate = false then none
  else do
    let directives ← cacheDirectives parseName headers
    let ages ← directives.foldlM takeDirective ⟨[], none, none⟩
    let date ← oneHttpDate parseDate headers (ascii "date")
    let ageValue ← oneDeltaHeader headers (ascii "age")
    let initialAge := max (ageValue.getD 0) (apparentAge now date)
    let lifetime ← lifetimeSeconds parseDate now headers route ages date
    let remaining := min lifetime route.maxTtlSeconds - initialAge
    if 0 < remaining ∧ remaining * 1000 < 2 ^ 64 then some (remaining * 1000, initialAge) else none

end

end CachePolicy

namespace Cache

/-- A response built from an entry. -/
structure CachedReply where
  status : UInt16
  headers : List (Bytes × Bytes)
  body : Bytes

/-- `HeaderValue::from_str`. -/
def headerValue (text : Bytes) : Option Bytes :=
  if text.all fun b => (32 ≤ b && b != 127) || b == 9 then some text else none

/-- The fields that are not replayed. -/
def droppedFields : List Bytes :=
  [ascii "content-length", ascii "transfer-encoding", ascii "connection", ascii "trailer"]

def cachedResponse (parseName : Bytes → Option Bytes) (nowMs : Nat) (entry : CacheEntry) :
    Option CachedReply := do
  let elapsedMs := nowMs - entry.storedUnixMs.toNat
  if nowMs < entry.storedUnixMs.toNat ∨ entry.ttlMs.toNat ≤ elapsedMs ∨ entry.status < 100 ∨
      999 < entry.status then none
  else
    let age := saturatingAdd entry.initialAgeSeconds.toNat (elapsedMs / 1000)
    let kept := entry.headers.filter fun field => field.1.map toAsciiLowercase ∉ droppedFields
    let fields ← kept.mapM fun field => do some (← parseName field.1, ← headerValue field.2)
    -- `insert` replaces an age that the origin sent
    some ⟨entry.status,
      fields.filter (·.1 ≠ ascii "age") ++ [(ascii "age", Decimal.print age)], entry.body⟩

end Cache

namespace CachePolicy

/-! ## The directives that any reader finds -/

/-- The pieces of a value for a reader that does not know quotes. -/
def commaPieces (value : Bytes) : List Bytes := (splitOn 44 value).map trimWhitespace

/-- The pieces for a reader that does. -/
def quotedPieces (value : Bytes) : List Bytes := (splitDirectives value).getD []

/-- The directives of a response, by how its values are cut. -/
def directivesBy (pieces : Bytes → List Bytes) (headers : HeaderMap) : List Directive :=
  (headers.getAll (ascii "cache-control")).flatMap fun value => (pieces value).map directive

/-- The directives that do not stop a response from being stored. -/
def permittedDirectives : List Bytes := ascii "max-age" :: ascii "s-maxage" :: flagDirectives

/-- The lifetime of a response: `s-maxage`, else `max-age`, else `Expires` minus `Date`, else the
    route's default. -/
def effectiveLifetime (parseDate : Bytes → Option Nat) (now : Nat) (headers : HeaderMap)
    (route : RouteCache) : Option Nat :=
  let directives := directivesBy commaPieces headers
  let argument (name : Bytes) : Option Nat := (directives.lookup name).bind deltaSeconds
  match (argument (ascii "s-maxage")).or (argument (ascii "max-age")) with
  | some seconds => some seconds
  | none => do
    let date ← oneHttpDate parseDate headers (ascii "date")
    match ← oneHttpDate parseDate headers (ascii "expires") with
    | some expires => expiresAfter now date expires
    | none => some route.ttlSeconds

theorem mem_trimWhitespace {b : UInt8} (hb : isAsciiWhitespace b = false) {x : Bytes}
    (h : b ∈ x) : b ∈ trimWhitespace x := by
  have hdrop : ∀ y : Bytes, b ∈ y → b ∈ y.dropWhile isAsciiWhitespace := by
    intro y hy
    rw [← List.takeWhile_append_dropWhile (p := isAsciiWhitespace) (l := y)] at hy
    obtain htake | hrest := List.mem_append.mp hy
    · have hspace := List.mem_takeWhile_imp htake
      rw [hb] at hspace
      cases hspace
    · exact hrest
  exact List.mem_reverse.mpr (hdrop _ (List.mem_reverse.mpr (hdrop x h)))

/-- When no piece of the quote-aware cut holds a comma, it is the cut at every comma. -/
theorem splitLoop_eq_splitOn {quoted escaped : Bool} {piece rest : Bytes} {pieces : List Bytes}
    (h : splitLoop quoted escaped piece rest = some pieces) (hcomma : ∀ p ∈ pieces, 44 ∉ p) :
    (splitOn 44 (piece ++ rest)).map trimWhitespace = pieces := by
  induction rest generalizing quoted escaped piece pieces with
  | nil =>
    unfold splitLoop at h
    split at h
    · cases h
    · obtain rfl := Option.some.inj h
      have hpiece : 44 ∉ piece := fun hmem =>
        hcomma _ (List.mem_singleton_self _) (mem_trimWhitespace (by decide) hmem)
      rw [List.append_nil, splitOn_eq_singleton.mpr ⟨rfl, hpiece⟩]
      rfl
  | cons c rest ih =>
    -- inside quotes, behind a backslash, or no comma: the byte joins the piece
    have happend : piece ++ c :: rest = (piece ++ [c]) ++ rest := by simp
    unfold splitLoop at h
    split at h
    · rw [happend]
      exact ih h hcomma
    split at h
    · rw [happend]
      exact ih h hcomma
    split at h
    · rw [happend]
      exact ih h hcomma
    split at h
    -- a comma outside quotes ends the piece
    · rename_i hcut
      obtain ⟨later, hlater, rfl⟩ := Option.map_eq_some_iff.mp h
      have hc : c = 44 := eq_of_beq (Bool.and_eq_true_iff.mp hcut).2
      have hpiece : 44 ∉ piece := fun hmem =>
        hcomma _ List.mem_cons_self (mem_trimWhitespace (by decide) hmem)
      have hrest := ih hlater fun p hp => hcomma p (List.mem_cons_of_mem _ hp)
      rw [List.nil_append] at hrest
      rw [hc, splitOn_append_cons, splitOn_eq_singleton.mpr ⟨rfl, hpiece⟩, List.map_append, hrest]
      rfl
    · rw [happend]
      exact ih h hcomma

/-- What the loop accepts as an argument: none, or a number of seconds. -/
def Argued (d : Directive) : Prop := d.2 = none ∨ ∃ seconds, deltaSeconds d.2 = some seconds

/-- What the loop has read of the directives behind it. -/
structure Reads (done : List Directive) (ages : Ages) : Prop where
  seen : ∀ name, name ∈ ages.seen ↔ name ∈ done.map Prod.fst
  permitted : ∀ d ∈ done, d.1 ∈ permittedDirectives ∧ Argued d
  nodup : (done.map Prod.fst).Nodup
  maxAge : ages.maxAge = (done.lookup (ascii "max-age")).bind deltaSeconds
  sharedMaxAge : ages.sharedMaxAge = (done.lookup (ascii "s-maxage")).bind deltaSeconds

theorem Reads.nil : Reads [] ⟨[], none, none⟩ :=
  ⟨fun _ => Iff.rfl, fun _ h => absurd h List.not_mem_nil, .nil, rfl, rfl⟩

variable {d : Directive} {done : List Directive} {ages ages' : Ages}

theorem lookup_concat {name : Bytes} :
    (done ++ [d]).lookup name = (done.lookup name).or (if name = d.1 then some d.2 else none) := by
  rw [List.lookup_append, List.lookup_cons]
  by_cases h : name = d.1
  · rw [if_pos h, beq_iff_eq.mpr h]
  · rw [if_neg h, beq_eq_false_iff_ne.mpr h]
    rfl

theorem lookup_eq_none {name : Bytes} (h : name ∉ done.map Prod.fst) :
    done.lookup name = none := by
  refine List.lookup_eq_none_iff.mpr fun d hd => bne_iff_ne.mpr fun heq => h ?_
  exact heq ▸ List.mem_map_of_mem hd

/-- One turn: a directive that was not there yet, with what it says of the two ages. -/
theorem Reads.concat (hreads : Reads done ages) (hnew : d.1 ∉ ages.seen)
    (hpermitted : d.1 ∈ permittedDirectives) (hargued : Argued d)
    (hseen : ages'.seen = d.1 :: ages.seen)
    (hmax : ages'.maxAge = if d.1 = ascii "max-age" then deltaSeconds d.2 else ages.maxAge)
    (hshared : ages'.sharedMaxAge =
      if d.1 = ascii "s-maxage" then deltaSeconds d.2 else ages.sharedMaxAge) :
    Reads (done ++ [d]) ages' := by
  have hfresh : d.1 ∉ done.map Prod.fst := fun hmem => hnew ((hreads.seen d.1).mpr hmem)
  -- the lookup of a name finds the new directive only under its own name
  have hfind : ∀ (name : Bytes) (old : Option Nat),
      old = (done.lookup name).bind deltaSeconds →
      (if d.1 = name then deltaSeconds d.2 else old) =
        ((done ++ [d]).lookup name).bind deltaSeconds := by
    intro name old hold
    rw [lookup_concat]
    by_cases hname : d.1 = name
    · rw [if_pos hname, if_pos hname.symm, ← hname, lookup_eq_none hfresh]
      rfl
    · rw [if_neg hname, if_neg (Ne.symm hname), Option.or_none, hold]
  constructor
  · intro name
    rw [hseen, List.mem_cons, hreads.seen, List.map_append, List.mem_append, List.map_cons,
      List.map_nil, List.mem_singleton, or_comm]
  · intro other hother
    obtain hold | hsame := List.mem_append.mp hother
    · exact hreads.permitted other hold
    · rw [List.mem_singleton.mp hsame]
      exact ⟨hpermitted, hargued⟩
  · rw [List.map_append, List.map_cons, List.map_nil, ← List.concat_eq_append]
    exact hreads.nodup.concat hfresh
  · rw [hmax]
    exact hfind _ _ hreads.maxAge
  · rw [hshared]
    exact hfind _ _ hreads.sharedMaxAge

theorem takeDirective_reads (hreads : Reads done ages) (h : takeDirective ages d = some ages') :
    Reads (done ++ [d]) ages' := by
  unfold takeDirective at h
  split at h
  · cases h
  rename_i hnew
  dsimp only at h
  split at h
  · cases h
  split at h
  · rename_i hname
    obtain ⟨seconds, hseconds, rfl⟩ := Option.map_eq_some_iff.mp h
    refine hreads.concat hnew ?_ (.inr ⟨seconds, hseconds⟩) rfl ?_ ?_
    · rw [hname]
      decide
    · rw [if_pos hname, hseconds]
    · rw [hname, if_neg (by decide)]
  split at h
  · rename_i hname
    obtain ⟨seconds, hseconds, rfl⟩ := Option.map_eq_some_iff.mp h
    refine hreads.concat hnew ?_ (.inr ⟨seconds, hseconds⟩) rfl ?_ ?_
    · rw [hname]
      decide
    · rw [hname, if_neg (by decide)]
    · rw [if_pos hname, hseconds]
  split at h
  · rename_i hmax hshared hflag
    split at h
    · cases h
    · rename_i hargument
      obtain rfl := Option.some.inj h
      refine hreads.concat hnew ?_ (.inl (Option.not_isSome_iff_eq_none.mp hargument)) rfl ?_ ?_
      · exact List.mem_cons_of_mem _ (List.mem_cons_of_mem _ hflag)
      · rw [if_neg hmax]
      · rw [if_neg hshared]
  · cases h

theorem foldlM_reads {directives : List Directive} (hreads : Reads done ages)
    (h : directives.foldlM takeDirective ages = some ages') :
    Reads (done ++ directives) ages' := by
  induction directives generalizing done ages with
  | nil =>
    obtain rfl := Option.some.inj h
    rwa [List.append_nil]
  | cons d rest ih =>
    rw [List.foldlM_cons] at h
    obtain ⟨next, hnext, h⟩ := Option.bind_eq_some_iff.mp h
    have hrest := ih (takeDirective_reads hreads hnext) h
    rwa [List.append_assoc] at hrest

theorem not_comma_of_deltaSeconds {argument : Bytes} {seconds : Nat}
    (h : deltaSeconds (some argument) = some seconds) : 44 ∉ argument := by
  intro hmem
  unfold deltaSeconds at h
  obtain ⟨value, hvalue, h⟩ := Option.bind_eq_some_iff.mp h
  obtain rfl := Option.some.inj hvalue
  dsimp only at h
  obtain ⟨⟨_, hdigits, _⟩, _⟩ := Option.ite_none_right_eq_some.mp h
  have hdigit : ∀ b ∈ (if argument.head? = some 34 ∧ argument.tail.getLast? = some 34 then
      argument.tail.dropLast else argument), isAsciiDigit b = true :=
    List.all_eq_true.mp hdigits
  split at hdigit
  · rename_i hquotes
    -- a comma between the quotes would be among the digits
    cases argument with
    | nil => cases hmem
    | cons first rest =>
      obtain rfl : first = 34 := Option.some.inj hquotes.1
      have hrest : 44 ∈ rest := (List.mem_cons.mp hmem).resolve_left (by decide)
      obtain ⟨body, rfl⟩ := List.getLast?_eq_some_iff.mp hquotes.2
      have hbody : 44 ∈ body := by
        obtain hbody | hlast := List.mem_append.mp hrest
        · exact hbody
        · exact absurd (List.mem_singleton.mp hlast) (by decide)
      rw [List.tail_cons, List.dropLast_concat] at hdigit
      exact absurd (hdigit 44 hbody) (by decide)
  · exact absurd (hdigit 44 hmem) (by decide)

/-- A piece that gave an accepted directive holds no comma. -/
theorem not_comma_of_directive {piece : Bytes}
    (hpermitted : (directive piece).1 ∈ permittedDirectives) (hargued : Argued (directive piece)) :
    44 ∉ piece := by
  intro hmem
  have hname : 44 ∉ directiveName piece := by
    intro hcomma
    have hlower : 44 ∈ (directive piece).1 :=
      List.mem_map.mpr ⟨44, hcomma, by decide⟩
    have hnone : ∀ name ∈ permittedDirectives, 44 ∉ name := by decide
    exact hnone _ hpermitted hlower
  cases hsplit : splitOnce 61 piece with
  | none =>
    unfold directiveName at hname
    rw [hsplit] at hname
    exact hname (mem_trimWhitespace (by decide) hmem)
  | some parts =>
    obtain ⟨hpiece, _⟩ := splitOnce_eq_some.mp hsplit
    unfold directiveName at hname
    rw [hsplit] at hname
    have hargument : (directive piece).2 = some (trimWhitespace parts.2) := by
      unfold directive
      rw [hsplit]
      rfl
    obtain hnone | ⟨seconds, hseconds⟩ := hargued
    · rw [hargument] at hnone
      cases hnone
    · rw [hargument] at hseconds
      rw [hpiece] at hmem
      obtain hfirst | hsecond := List.mem_append.mp hmem
      · exact hname (mem_trimWhitespace (by decide) hfirst)
      · have hcomma : 44 ∈ parts.2 := (List.mem_cons.mp hsecond).resolve_left (by decide)
        exact not_comma_of_deltaSeconds hseconds (mem_trimWhitespace (by decide) hcomma)

section

variable {parseName : Bytes → Option Bytes} {parseDate : Bytes → Option Nat}

theorem mapM_readDirective {pieces : List Bytes} {ds : List Directive}
    (h : pieces.mapM (readDirective parseName) = some ds) : pieces.map directive = ds := by
  induction pieces generalizing ds with
  | nil => exact Option.some.inj h
  | cons piece rest ih =>
    rw [List.mapM_cons] at h
    obtain ⟨d, hd, h⟩ := Option.bind_eq_some_iff.mp h
    obtain ⟨later, hlater, h⟩ := Option.bind_eq_some_iff.mp h
    obtain rfl := Option.some.inj h
    obtain ⟨_, hd⟩ := Option.ite_none_left_eq_some.mp hd
    rw [List.map_cons, ih hlater, Option.some.inj hd]

variable {pieces : Bytes → List Bytes}

/-- Both cuts of a value give its directives. -/
theorem valueDirectives_eq_some {value : Bytes} {ds : List Directive}
    (h : valueDirectives parseName value = some ds)
    (hds : ∀ d ∈ ds, d.1 ∈ permittedDirectives ∧ Argued d)
    (hpieces : pieces = commaPieces ∨ pieces = quotedPieces) :
    (pieces value).map directive = ds := by
  unfold valueDirectives at h
  obtain ⟨text, htext, h⟩ := Option.bind_eq_some_iff.mp h
  obtain rfl := eq_of_toStr htext
  obtain ⟨cut, hcut, h⟩ := Option.bind_eq_some_iff.mp h
  have hread := mapM_readDirective h
  obtain rfl | rfl := hpieces
  · have hcomma : ∀ piece ∈ cut, 44 ∉ piece := by
      intro piece hpiece
      obtain ⟨hpermitted, hargued⟩ := hds _ (hread ▸ List.mem_map_of_mem hpiece)
      exact not_comma_of_directive hpermitted hargued
    have hplain : commaPieces value = cut := splitLoop_eq_splitOn hcut hcomma
    rw [hplain, hread]
  · unfold quotedPieces
    rw [hcut]
    exact hread

theorem mapM_valueDirectives {values : List Bytes} {dss : List (List Directive)}
    (h : values.mapM (valueDirectives parseName) = some dss)
    (hdss : ∀ d ∈ dss.flatten, d.1 ∈ permittedDirectives ∧ Argued d)
    (hpieces : pieces = commaPieces ∨ pieces = quotedPieces) :
    (values.flatMap fun value => (pieces value).map directive) = dss.flatten := by
  induction values generalizing dss with
  | nil =>
    obtain rfl := Option.some.inj h
    rfl
  | cons value rest ih =>
    rw [List.mapM_cons] at h
    obtain ⟨ds, hds, h⟩ := Option.bind_eq_some_iff.mp h
    obtain ⟨later, hlater, h⟩ := Option.bind_eq_some_iff.mp h
    obtain rfl := Option.some.inj h
    rw [List.flatten_cons] at hdss ⊢
    rw [List.flatMap_cons,
      valueDirectives_eq_some hds (fun d hd => hdss d (List.mem_append_left _ hd)) hpieces,
      ih hlater fun d hd => hdss d (List.mem_append_right _ hd)]

theorem cacheDirectives_eq_some {headers : HeaderMap} {directives : List Directive} {ages : Ages}
    (h : cacheDirectives parseName headers = some directives) (hreads : Reads directives ages)
    (hpieces : pieces = commaPieces ∨ pieces = quotedPieces) :
    directivesBy pieces headers = directives := by
  obtain ⟨dss, hdss, rfl⟩ := Option.map_eq_some_iff.mp h
  exact mapM_valueDirectives hdss hreads.permitted hpieces

/-- What an accepted response is: its directives are read, and its remaining lifetime is what its
    age leaves of the effective one. -/
theorem responseTtl_eq_some {now : Nat} {headers : HeaderMap} {status : Nat} {route : RouteCache}
    {ttlMs initialAge : Nat}
    (h : responseTtl parseName parseDate now headers status route = some (ttlMs, initialAge)) :
    ∃ directives ages lifetime, cacheDirectives parseName headers = some directives ∧
      Reads directives ages ∧ effectiveLifetime parseDate now headers route = some lifetime ∧
      route.maxTtlSeconds ≤ maxTtlSecondsLimit ∧
      ttlMs = (min lifetime route.maxTtlSeconds - initialAge) * 1000 ∧ 0 < ttlMs := by
  unfold responseTtl at h
  obtain ⟨hrefused, h⟩ := Option.ite_none_left_eq_some.mp h
  -- the checks that are made first include the limits of the route
  have hroute : route.maxTtlSeconds ≤ maxTtlSecondsLimit := by
    have hvalid : route.validate = true := by
      by_contra hinvalid
      exact hrefused (.inr (.inr (.inr (.inr (.inr (.inr (Bool.not_eq_true _ ▸ hinvalid)))))))
    exact (of_decide_eq_true hvalid).2.2
  obtain ⟨directives, hdirectives, h⟩ := Option.bind_eq_some_iff.mp h
  obtain ⟨ages, hages, h⟩ := Option.bind_eq_some_iff.mp h
  obtain ⟨date, hdate, h⟩ := Option.bind_eq_some_iff.mp h
  obtain ⟨ageValue, hage, h⟩ := Option.bind_eq_some_iff.mp h
  obtain ⟨lifetime, hlifetime, h⟩ := Option.bind_eq_some_iff.mp h
  obtain ⟨⟨hpositive, _⟩, h⟩ := Option.ite_none_right_eq_some.mp h
  obtain ⟨rfl, rfl⟩ := Prod.mk.inj (Option.some.inj h)
  have hreads : Reads directives ages := by
    have hall := foldlM_reads Reads.nil hages
    rwa [List.nil_append] at hall
  refine ⟨directives, ages, lifetime, hdirectives, hreads, ?_, hroute, rfl, by omega⟩
  unfold effectiveLifetime
  rw [cacheDirectives_eq_some hdirectives hreads (.inl rfl)]
  dsimp only
  rw [← hreads.sharedMaxAge, ← hreads.maxAge]
  unfold lifetimeSeconds at hlifetime
  -- the directives give the lifetime; without them the expiry date does
  cases hseconds : ages.sharedMaxAge.or ages.maxAge with
  | some seconds =>
    rw [hseconds] at hlifetime
    exact hlifetime
  | none =>
    rw [hseconds] at hlifetime
    dsimp only
    rw [hdate]
    exact hlifetime

/-- **Freshness is sound.** However the `Cache-Control` values of an accepted response are cut at
    commas, each directive is one that permits storing and none stands twice; and every reply that
    is built from the stored response has one `Age`, below the effective lifetime and below the
    route's limit. -/
theorem freshness_sound {now : Nat} {headers : HeaderMap} {status : Nat} {route : RouteCache}
    {ttlMs initialAge : Nat}
    (h : responseTtl parseName parseDate now headers status route = some (ttlMs, initialAge)) :
    (∀ pieces, pieces = commaPieces ∨ pieces = quotedPieces →
      (∀ d ∈ directivesBy pieces headers, d.1 ∈ permittedDirectives) ∧
        ((directivesBy pieces headers).map Prod.fst).Nodup) ∧
    ∃ lifetime, effectiveLifetime parseDate now headers route = some lifetime ∧
      ∀ (entry : Cache.CacheEntry) (nowMs : Nat) (reply : Cache.CachedReply),
        entry.ttlMs.toNat = ttlMs → entry.initialAgeSeconds.toNat = initialAge →
        Cache.cachedResponse parseName nowMs entry = some reply →
        ∃ age, (reply.headers.filter (·.1 = ascii "age")) = [(ascii "age", Decimal.print age)] ∧
          age < min lifetime route.maxTtlSeconds := by
  obtain ⟨directives, ages, lifetime, hdirectives, hreads, hlifetime, hroute, httl, hpositive⟩ :=
    responseTtl_eq_some h
  refine ⟨?_, lifetime, hlifetime, ?_⟩
  · intro pieces hpieces
    rw [cacheDirectives_eq_some hdirectives hreads hpieces]
    exact ⟨fun d hd => (hreads.permitted d hd).1, hreads.nodup⟩
  · intro entry nowMs reply hentry hinitial hreply
    unfold Cache.cachedResponse at hreply
    dsimp only at hreply
    obtain ⟨hserved, hreply⟩ := Option.ite_none_left_eq_some.mp hreply
    obtain ⟨fields, _, hreply⟩ := Option.bind_eq_some_iff.mp hreply
    obtain rfl := Option.some.inj hreply
    have helapsed : nowMs - entry.storedUnixMs.toNat < entry.ttlMs.toNat := by omega
    have hlimit : min lifetime route.maxTtlSeconds ≤ 86400 :=
      Nat.le_trans (Nat.min_le_right _ _) hroute
    refine ⟨Cache.saturatingAdd entry.initialAgeSeconds.toNat
      ((nowMs - entry.storedUnixMs.toNat) / 1000), ?_, ?_⟩
    · simp [List.filter_append, List.filter_filter]
    · -- the elapsed time is below the whole seconds that were left
      unfold Cache.saturatingAdd
      rw [hentry, httl] at helapsed
      rw [hinitial]
      generalize min lifetime route.maxTtlSeconds = bound at *
      generalize nowMs - entry.storedUnixMs.toNat = elapsed at *
      omega

end

/-- A response with two directives, dated a second before it arrives. -/
def pageHeaders : HeaderMap where
  entries := [(ascii "cache-control", [ascii "max-age=\"60\" , Public"]),
    (ascii "date", [ascii "Thu, 01 Jan 1970 00:00:09 GMT"])]
  nodup := by decide
  nonempty := by decide

/-- A reader of one date. -/
def pageDate (text : Bytes) : Option Nat :=
  if text = ascii "Thu, 01 Jan 1970 00:00:09 GMT" then some 9 else none

theorem freshness_sound_page :
    responseTtl headerName pageDate (10 * second) pageHeaders 200 {} = some (59000, 1) ∧
    (∀ pieces, pieces = commaPieces ∨ pieces = quotedPieces →
      (∀ d ∈ directivesBy pieces pageHeaders, d.1 ∈ permittedDirectives) ∧
        ((directivesBy pieces pageHeaders).map Prod.fst).Nodup) ∧
    ∃ lifetime,
      effectiveLifetime pageDate (10 * second) pageHeaders {} = some lifetime ∧
      ∀ (entry : Cache.CacheEntry) (nowMs : Nat) (reply : Cache.CachedReply),
        entry.ttlMs.toNat = 59000 → entry.initialAgeSeconds.toNat = 1 →
        Cache.cachedResponse headerName nowMs entry = some reply →
        ∃ age, (reply.headers.filter (·.1 = ascii "age")) = [(ascii "age", Decimal.print age)] ∧
          age < min lifetime ({} : RouteCache).maxTtlSeconds :=
  have h : responseTtl headerName pageDate (10 * second) pageHeaders 200 {} = some (59000, 1) := by
    decide +kernel
  ⟨h, freshness_sound h⟩

end CachePolicy
