import Hangang.Framework.Decimal
import Hangang.Framework.Json
import Hangang.RequestBlocks.Names

/-! # Request Blocks: Fields of Nested JSON

    A condition may name a field of a JSON document that a parameter carries. The field is
    looked for at every depth, also in documents carried in strings. Reading and walking
    share a depth, a count of nodes and a count of bytes, each of which is bounded.

    The parser of `serde_json` is a parameter: what it offers a visitor of a text, up to
    the place where the text stops being JSON. -/

open Bytes Except
open Json (insertMember)

namespace RequestBlocks

/-! ## Reading a document -/

mutual

/-- What the parser offers for a value. -/
inductive Source where
  | scalar (value : Json)
  | seq (items : Items)
  | map (members : Members)
  /-- The text is not a value here. -/
  | broken

/-- What it offers for the rest of an array. -/
inductive Items where
  | done
  | item (value : Source) (rest : Items)
  | broken

/-- What it offers for the rest of an object. -/
inductive Members where
  | done
  | member (key : Bytes) (value : Source) (rest : Members)
  /-- A key that no value follows. -/
  | keyOnly (key : Bytes)
  | broken

end

/-- An error of the parser's own, or one that the visitor raised. -/
inductive ReadError where
  | syntaxError
  | custom
  deriving DecidableEq, Repr

def maxDepth : Nat := 16

def maxNodes : Nat := 1024

/-- A key that stands twice in its object, or holds a control character. -/
def ambiguousKey (read : JsonObject) (key : Bytes) : Bool :=
  (read.lookup key).isSome || hasControl key

mutual

/-- `JsonSeed::deserialize`: the value and the number of nodes read so far. -/
def seed (depth nodes : Nat) (source : Source) : Except ReadError (Json × Nat) :=
  if maxDepth < depth ∨ maxNodes ≤ nodes then .error .custom
  else
    match source with
    | .scalar value => .ok (value, nodes + 1)
    | .seq items => seedItems (depth + 1) (nodes + 1) [] items
    | .map members => seedMembers (depth + 1) (nodes + 1) [] members
    | .broken => .error .syntaxError

/-- `visit_seq`. -/
def seedItems (depth nodes : Nat) (values : List Json) (items : Items) :
    Except ReadError (Json × Nat) :=
  match items with
  | .done => .ok (.array values, nodes)
  | .item value rest => do
    let parsed ← seed depth nodes value
    seedItems depth parsed.2 (values ++ [parsed.1]) rest
  | .broken => .error .syntaxError

/-- `visit_map`. -/
def seedMembers (depth nodes : Nat) (values : JsonObject) (members : Members) :
    Except ReadError (Json × Nat) :=
  match members with
  | .done => .ok (.object values, nodes)
  | .member key value rest =>
    if ambiguousKey values key then .error .custom
    else do
      let parsed ← seed depth nodes value
      seedMembers depth parsed.2 (insertMember key parsed.1 values) rest
  | .keyOnly key => .error (if ambiguousKey values key then .custom else .syntaxError)
  | .broken => .error .syntaxError

end

mutual

/-- The document that a text is, without any limit. -/
def Source.document : Source → Option Json
  | .scalar value => some value
  | .seq items => items.document []
  | .map members => members.document []
  | .broken => none

def Items.document (values : List Json) : Items → Option Json
  | .done => some (.array values)
  | .item value rest => value.document.bind fun value => rest.document (values ++ [value])
  | .broken => none

def Members.document (values : JsonObject) : Members → Option Json
  | .done => some (.object values)
  | .member key value rest =>
    value.document.bind fun value => rest.document (insertMember key value values)
  | .keyOnly _ => none
  | .broken => none

end

mutual

/-- The number of values in a text. -/
def Source.nodes : Source → Nat
  | .scalar _ => 1
  | .seq items => 1 + items.nodes
  | .map members => 1 + members.nodes
  | .broken => 0

def Items.nodes : Items → Nat
  | .done => 0
  | .item value rest => value.nodes + rest.nodes
  | .broken => 0

def Members.nodes : Members → Nat
  | .done => 0
  | .member _ value rest => value.nodes + rest.nodes
  | .keyOnly _ => 0
  | .broken => 0

end

/-- A reading that started at `nodes` is faithful to a document of `count` nodes: it returns the
    document and counts its nodes, within the bound, and a syntax error means that there is no
    document. -/
def Faithful (document : Option Json) (nodes count : Nat) :
    Except ReadError (Json × Nat) → Prop
  | .ok parsed => document = some parsed.1 ∧ parsed.2 = nodes + count ∧ parsed.2 ≤ maxNodes
  | .error .syntaxError => document = none
  | .error .custom => True

/-- **Reading one value and then the rest**: two faithful readings in a row are faithful. -/
theorem Faithful.bind {first : Option Json} {next : Json → Option Json} {nodes count more : Nat}
    {read : Except ReadError (Json × Nat)} {rest : Json × Nat → Except ReadError (Json × Nat)}
    (hread : Faithful first nodes count read)
    (hrest : ∀ parsed : Json × Nat, parsed.2 ≤ maxNodes →
      Faithful (next parsed.1) parsed.2 more (rest parsed)) :
    Faithful (first.bind next) nodes (count + more) (read >>= rest) := by
  cases read with
  | error error =>
    cases error with
    | custom => exact trivial
    | syntaxError =>
      have hnone : first = none := hread
      rw [hnone]
      exact rfl
  | ok parsed =>
    obtain ⟨hfirst, htotal, hbound⟩ := hread
    have hnext := hrest parsed hbound
    rw [hfirst]
    show Faithful (next parsed.1) nodes (count + more) (rest parsed)
    cases hresult : rest parsed with
    | error error =>
      rw [hresult] at hnext
      cases error with
      | custom => exact trivial
      | syntaxError => exact hnext
    | ok final =>
      rw [hresult] at hnext
      obtain ⟨hdocument, hfinal, hlimit⟩ := hnext
      exact ⟨hdocument, by omega, hlimit⟩

/-- Counting the node that a container is itself. -/
theorem Faithful.container {document : Option Json} {nodes count : Nat}
    {read : Except ReadError (Json × Nat)} (h : Faithful document (nodes + 1) count read) :
    Faithful document nodes (1 + count) read := by
  cases read with
  | error error =>
    cases error with
    | custom => exact trivial
    | syntaxError => exact h
  | ok parsed =>
    obtain ⟨hdocument, htotal, hbound⟩ := h
    exact ⟨hdocument, by omega, hbound⟩

mutual

theorem seed_faithful (depth nodes : Nat) (source : Source) :
    Faithful source.document nodes source.nodes (seed depth nodes source) := by
  unfold seed
  split
  · exact trivial
  · rename_i hlimit
    have hroom : nodes + 1 ≤ maxNodes := by omega
    cases source with
    | scalar value => exact ⟨rfl, rfl, hroom⟩
    | seq items => exact (seedItems_faithful (depth + 1) [] items hroom).container
    | map members => exact (seedMembers_faithful (depth + 1) [] members hroom).container
    | broken => exact rfl

theorem seedItems_faithful (depth : Nat) {nodes : Nat} (values : List Json) (items : Items)
    (hroom : nodes ≤ maxNodes) :
    Faithful (items.document values) nodes items.nodes (seedItems depth nodes values items) := by
  cases items with
  | done => exact ⟨rfl, rfl, hroom⟩
  | broken => exact rfl
  | item value rest =>
    exact (seed_faithful depth nodes value).bind fun parsed hparsed =>
      seedItems_faithful depth (values ++ [parsed.1]) rest hparsed

theorem seedMembers_faithful (depth : Nat) {nodes : Nat} (values : JsonObject)
    (members : Members) (hroom : nodes ≤ maxNodes) :
    Faithful (members.document values) nodes members.nodes
      (seedMembers depth nodes values members) := by
  cases members with
  | done => exact ⟨rfl, rfl, hroom⟩
  | broken => exact rfl
  | keyOnly key =>
    unfold seedMembers
    split
    · exact trivial
    · exact rfl
  | member key value rest =>
    unfold seedMembers
    split
    · exact trivial
    · exact (seed_faithful depth nodes value).bind fun parsed hparsed =>
        seedMembers_faithful depth (insertMember key parsed.1 values) rest hparsed

end

/-! ## Walking a document -/

section Walk

-- What the parser offers for a text, and whether only white space follows the value.
variable (read : Bytes → Source × Bool)

/-- `parse_json`. -/
def parseJson (nodes depth : Nat) (raw : Bytes) : Except Nat (Json × Nat) :=
  match seed depth nodes (read raw).1 with
  | .ok parsed => if (read raw).2 then .ok parsed else .error 400
  | .error _ => .error 400

/-- A document carried in a string, or `none` for a string that is not JSON. -/
def candidate (nodes depth : Nat) (strict : Bool) (raw : Bytes) :
    Except Nat (Option (Json × Nat)) :=
  match seed depth nodes (read raw).1 with
  | .ok parsed => if (read raw).2 then .ok (some parsed) else .error 400
  | .error reason => if strict = false ∧ reason = .syntaxError then .ok none else .error 400

/-- `Number::to_string` of an integer. -/
def printInt (value : Int) : Bytes :=
  if value < 0 then 45 :: Decimal.print value.natAbs else Decimal.print value.natAbs

def scalar : Json → Option Bytes
  | .string text => some text
  | .int value => some (printInt value)
  | .float text => some text
  | .bool value => some (ascii (if value then "true" else "false"))
  | .null => some []
  | .array _ => none
  | .object _ => none

/-- `raw.trim_start().starts_with(['{', '['])`. -/
def opensDocument (raw : Bytes) : Bool :=
  (((Utf8.chars raw).dropWhile Utf8.isWhitespace).head?.map Char.toNat).any
    fun c => c == 123 || c == 91

structure Walk where
  nodes : Nat
  decoded : Nat
  values : List Bytes

variable (field : Bytes) (container : Option Bytes)

/-- What a member adds by itself: its value, when it is the field. -/
def own (name : Bytes) (value : Json) : Option (List Bytes) :=
  if name = field then (scalar value).map ([·]) else some []

def isStrict (key : Option Bytes) : Bool := container.isSome && key == container

/-- The visit of a value with `levels` more levels allowed below the last one, that is at depth
    `17 - levels`. -/
def visit : Nat → Option Bytes → Json → Walk → Except Nat Walk
  | 0, _, _, _ => .error 400
  | levels + 1, _, .object members, walk =>
    members.foldlM (fun walk member => do
      let _ ← canonicalName (field :: container.toList) member.1
      let here ← (own field member.1 member.2).elim (.error 400) .ok
      visit levels (some member.1) member.2 { walk with values := walk.values ++ here }) walk
  | levels + 1, key, .array items, walk =>
    items.foldlM (fun walk item => visit levels key item walk) walk
  | levels + 1, key, .string raw, walk =>
    if isStrict container key || opensDocument raw then do
      match ← candidate read walk.nodes (maxDepth + 1 - levels) (isStrict container key) raw with
      | none => .ok walk
      | some parsed =>
        ensure (walk.decoded + raw.length ≤ 16384) 413
        visit levels none parsed.1
          { walk with nodes := parsed.2, decoded := walk.decoded + raw.length }
    else .ok walk
  | _ + 1, _, _, walk => .ok walk

/-- The values of a field in the document that a parameter carries; the error is a status. -/
def nestedValues (raw : Bytes) : Except Nat (List Bytes) := do
  ensure (raw.length ≤ 4096) 413
  let root ← parseJson read 0 0 raw
  let walk ← visit read field container (maxDepth + 1) container root.1 ⟨root.2, raw.length, []⟩
  .ok walk.values

/-! ## What is found -/

/-- The document that a whole text is. -/
def document (raw : Bytes) : Option Json := if (read raw).2 then (read raw).1.document else none

/-- What is being visited: a value under a key, or the rest of an object or of an array. -/
inductive Visit where
  | value (key : Option Bytes) (value : Json)
  | members (members : JsonObject)
  | items (key : Option Bytes) (items : List Json)

def isLeaf : Json → Bool
  | .string _ | .array _ | .object _ => false
  | _ => true

/-- `Finds depth visited found texts`: all occurrences of the field in what is visited are
    `found`, members in the order of their keys and items in their own, no value stands deeper
    than the limit, and `texts` are the strings that were read as documents. -/
inductive Finds : Nat → Visit → List Bytes → List Bytes → Prop where
  | leaf {depth : Nat} {key : Option Bytes} {value : Json} (hdepth : depth ≤ maxDepth)
      (hleaf : isLeaf value = true) : Finds depth (.value key value) [] []
  | object {depth : Nat} {key : Option Bytes} {members : JsonObject} {found texts : List Bytes}
      (hdepth : depth ≤ maxDepth) (hmembers : Finds (depth + 1) (.members members) found texts) :
      Finds depth (.value key (.object members)) found texts
  | noMember {depth : Nat} : Finds depth (.members []) [] []
  | member {depth : Nat} {name : Bytes} {value : Json} {rest : JsonObject}
      {here inner texts outer texts' : List Bytes} (hown : own field name value = some here)
      (hvalue : Finds depth (.value (some name) value) inner texts)
      (hrest : Finds depth (.members rest) outer texts') :
      Finds depth (.members ((name, value) :: rest)) (here ++ inner ++ outer) (texts ++ texts')
  | array {depth : Nat} {key : Option Bytes} {items : List Json} {found texts : List Bytes}
      (hdepth : depth ≤ maxDepth) (hitems : Finds (depth + 1) (.items key items) found texts) :
      Finds depth (.value key (.array items)) found texts
  | noItem {depth : Nat} {key : Option Bytes} : Finds depth (.items key []) [] []
  | item {depth : Nat} {key : Option Bytes} {value : Json} {rest : List Json}
      {inner texts outer texts' : List Bytes} (hvalue : Finds depth (.value key value) inner texts)
      (hrest : Finds depth (.items key rest) outer texts') :
      Finds depth (.items key (value :: rest)) (inner ++ outer) (texts ++ texts')
  | carried {depth : Nat} {key : Option Bytes} {raw : Bytes} {inner : Json}
      {found texts : List Bytes} (hdepth : depth ≤ maxDepth)
      (hopens : isStrict container key = true ∨ opensDocument raw = true)
      (hinner : document read raw = some inner)
      (hfound : Finds (depth + 1) (.value none inner) found texts) :
      Finds depth (.value key (.string raw)) found (raw :: texts)
  | plain {depth : Nat} {key : Option Bytes} {raw : Bytes} (hdepth : depth ≤ maxDepth)
      (hstrict : isStrict container key = false)
      (hplain : opensDocument raw = false ∨ document read raw = none) :
      Finds depth (.value key (.string raw)) [] []

/-- How far a walk got: the values it appended and the texts it read as documents. -/
structure Advances (walk walk' : Walk) (found texts : List Bytes) : Prop where
  values : walk'.values = walk.values ++ found
  decoded : walk'.decoded = walk.decoded + (texts.map List.length).sum
  nodes : walk'.nodes = walk.nodes + (texts.map fun text => (read text).1.nodes).sum
  bounded : walk.nodes ≤ maxNodes ∧ walk.decoded ≤ 16384 →
    walk'.nodes ≤ maxNodes ∧ walk'.decoded ≤ 16384

variable {read field container}

theorem Advances.refl (walk : Walk) : Advances read walk walk [] [] :=
  ⟨by simp, by simp, by simp, id⟩

theorem Advances.trans {walk walk' walk'' : Walk} {found found' texts texts' : List Bytes}
    (h : Advances read walk walk' found texts) (h' : Advances read walk' walk'' found' texts') :
    Advances read walk walk'' (found ++ found') (texts ++ texts') where
  values := by rw [h'.values, h.values, List.append_assoc]
  decoded := by rw [h'.decoded, h.decoded, List.map_append, List.sum_append, Nat.add_assoc]
  nodes := by rw [h'.nodes, h.nodes, List.map_append, List.sum_append, Nat.add_assoc]
  bounded := fun hbounded => h'.bounded (h.bounded hbounded)

/-- What a candidate is: the document of its text, with its nodes counted, or no document. -/
theorem candidate_eq_ok {nodes depth : Nat} {strict : Bool} {raw : Bytes}
    {result : Option (Json × Nat)} (h : candidate read nodes depth strict raw = .ok result) :
    (result = none ∧ strict = false ∧ document read raw = none) ∨
      ∃ parsed, result = some parsed ∧ document read raw = some parsed.1 ∧
        parsed.2 = nodes + (read raw).1.nodes ∧ parsed.2 ≤ maxNodes := by
  have hfaithful := seed_faithful depth nodes (read raw).1
  unfold candidate at h
  split at h
  · rename_i parsed hseed
    rw [hseed] at hfaithful
    obtain ⟨hdocument, hnodes, hbound⟩ := hfaithful
    split at h
    · rename_i hend
      refine .inr ⟨parsed, (Except.ok.inj h).symm, ?_, hnodes, hbound⟩
      unfold document
      rw [if_pos hend]
      exact hdocument
    · cases h
  · rename_i reason hseed
    rw [hseed] at hfaithful
    split at h
    · rename_i hplain
      obtain ⟨hstrict, rfl⟩ := hplain
      have hnone : (read raw).1.document = none := hfaithful
      refine .inl ⟨(Except.ok.inj h).symm, hstrict, ?_⟩
      unfold document
      rw [hnone, ite_self]
    · cases h

/-- What an accepted document is. -/
theorem parseJson_eq_ok {nodes depth : Nat} {raw : Bytes} {parsed : Json × Nat}
    (h : parseJson read nodes depth raw = .ok parsed) :
    document read raw = some parsed.1 ∧ parsed.2 = nodes + (read raw).1.nodes ∧
      parsed.2 ≤ maxNodes := by
  have hfaithful := seed_faithful depth nodes (read raw).1
  unfold parseJson at h
  split at h
  · rename_i value hseed
    rw [hseed] at hfaithful
    obtain ⟨hdocument, hnodes, hbound⟩ := hfaithful
    split at h
    · rename_i hend
      obtain rfl := Except.ok.inj h
      refine ⟨?_, hnodes, hbound⟩
      unfold document
      rw [if_pos hend]
      exact hdocument
    · cases h
  · cases h

/-- What a visit with this many levels left is to show: all that it appends is found. -/
def Visits (read : Bytes → Source × Bool) (field : Bytes) (container : Option Bytes)
    (levels : Nat) : Prop :=
  ∀ {depth : Nat} {key : Option Bytes} {value : Json} {walk walk' : Walk},
    levels + depth = maxDepth + 1 → visit read field container levels key value walk = .ok walk' →
    ∃ found texts, Finds read field container depth (.value key value) found texts ∧
      Advances read walk walk' found texts

theorem Visits.items {levels depth : Nat} (hvisits : Visits read field container levels)
    (hdepth : levels + depth = maxDepth + 1) {key : Option Bytes} {items : List Json}
    {walk walk' : Walk}
    (h : items.foldlM (fun walk item => visit read field container levels key item walk) walk =
      .ok walk') :
    ∃ found texts, Finds read field container depth (.items key items) found texts ∧
      Advances read walk walk' found texts := by
  induction items generalizing walk with
  | nil =>
    obtain rfl := Except.ok.inj h
    exact ⟨[], [], .noItem, .refl walk⟩
  | cons item rest ih =>
    rw [List.foldlM_cons] at h
    obtain ⟨next, hnext, h⟩ := bind_eq_ok.mp h
    obtain ⟨inner, texts, hinner, hadvances⟩ := hvisits hdepth hnext
    obtain ⟨outer, texts', houter, hrest⟩ := ih h
    exact ⟨inner ++ outer, texts ++ texts', .item hinner houter, hadvances.trans hrest⟩

theorem Visits.members {levels depth : Nat} (hvisits : Visits read field container levels)
    (hdepth : levels + depth = maxDepth + 1) {members : JsonObject} {walk walk' : Walk}
    (h : members.foldlM (fun walk member => do
      let _ ← canonicalName (field :: container.toList) member.1
      let here ← (own field member.1 member.2).elim (.error 400) .ok
      visit read field container levels (some member.1) member.2
        { walk with values := walk.values ++ here }) walk = .ok walk') :
    ∃ found texts, Finds read field container depth (.members members) found texts ∧
      Advances read walk walk' found texts := by
  induction members generalizing walk with
  | nil =>
    obtain rfl := Except.ok.inj h
    exact ⟨[], [], .noMember, .refl walk⟩
  | cons member rest ih =>
    rw [List.foldlM_cons] at h
    obtain ⟨next, hnext, h⟩ := bind_eq_ok.mp h
    obtain ⟨_, _, hnext⟩ := bind_eq_ok.mp hnext
    obtain ⟨here, hhere, hnext⟩ := bind_eq_ok.mp hnext
    have hown : own field member.1 member.2 = some here := by
      cases hown : own field member.1 member.2 with
      | none =>
        rw [hown] at hhere
        cases hhere
      | some values =>
        rw [hown] at hhere
        rw [Except.ok.inj hhere]
    obtain ⟨inner, texts, hinner, hadvances⟩ := hvisits hdepth hnext
    obtain ⟨outer, texts', houter, hrest⟩ := ih h
    -- the member's own value stands before what its value holds
    have hpushed : Advances read walk { walk with values := walk.values ++ here } here [] :=
      ⟨rfl, by simp, by simp, id⟩
    exact ⟨here ++ inner ++ outer, texts ++ texts', .member hown hinner houter,
      (hpushed.trans hadvances).trans hrest⟩

/-- **A visit finds every occurrence.** By induction on the levels left: a container and a
    carried document are visited with one level fewer. -/
theorem visit_finds (levels : Nat) : Visits read field container levels := by
  induction levels with
  | zero =>
    intro depth key value walk walk' _ h
    cases h
  | succ levels ih =>
    intro depth key value walk walk' hdepth h
    -- the levels that are left and the depth add up to the limit
    have hlimit : depth ≤ maxDepth := by omega
    have hbelow : levels + (depth + 1) = maxDepth + 1 := by omega
    cases value with
    | object members =>
      obtain ⟨found, texts, hfound, hadvances⟩ := ih.members hbelow h
      exact ⟨found, texts, .object hlimit hfound, hadvances⟩
    | array items =>
      obtain ⟨found, texts, hfound, hadvances⟩ := ih.items hbelow h
      exact ⟨found, texts, .array hlimit hfound, hadvances⟩
    -- a string may carry a document of its own, which is read and visited in turn
    | string raw =>
      unfold visit at h
      split at h
      · rename_i hopens
        obtain ⟨result, hresult, h⟩ := bind_eq_ok.mp h
        obtain ⟨rfl, hstrict, hnone⟩ | ⟨parsed, rfl, hinner, hnodes, hbound⟩ :=
          candidate_eq_ok hresult
        · obtain rfl := Except.ok.inj h
          exact ⟨[], [], .plain hlimit hstrict (.inr hnone), .refl walk⟩
        · obtain ⟨_, hroom, h⟩ := bind_eq_ok.mp h
          have hroom := ensure_eq_ok.mp hroom
          obtain ⟨found, texts, hfound, hadvances⟩ := ih hbelow h
          have hread : Advances read walk
              { walk with nodes := parsed.2, decoded := walk.decoded + raw.length } [] [raw] :=
            ⟨by simp, by simp, by simp [hnodes], fun _ => ⟨hbound, hroom⟩⟩
          exact ⟨found, raw :: texts, .carried hlimit (Bool.or_eq_true_iff.mp hopens) hinner hfound,
            hread.trans hadvances⟩
      · rename_i hopens
        obtain rfl := Except.ok.inj h
        have hclosed := Bool.or_eq_false_iff.mp (Bool.not_eq_true _ ▸ hopens)
        exact ⟨[], [], .plain hlimit hclosed.1 (.inl hclosed.2), .refl walk⟩
    | null | bool _ | int _ | float _ =>
      obtain rfl := Except.ok.inj h
      exact ⟨[], [], .leaf hlimit rfl, .refl walk⟩

/-- **Nested values.** A parameter that is not refused is a JSON document, and the values
    returned are those of every occurrence of the field in it and in the documents its strings
    carry, the members of an object in the order of their keys. No value is deeper than 16, and
    the documents read have at most 1024 nodes and 16384 bytes together. -/
theorem nestedValues_complete_bounded {raw : Bytes} {values : List Bytes}
    (h : nestedValues read field container raw = .ok values) :
    ∃ root texts, document read raw = some root ∧
      Finds read field container 0 (.value container root) values texts ∧
      ((raw :: texts).map List.length).sum ≤ 16384 ∧
      ((raw :: texts).map fun text => (read text).1.nodes).sum ≤ 1024 := by
  unfold nestedValues at h
  obtain ⟨_, hraw, h⟩ := bind_eq_ok.mp h
  obtain ⟨root, hroot, h⟩ := bind_eq_ok.mp h
  obtain ⟨walk, hwalk, h⟩ := bind_eq_ok.mp h
  obtain rfl := Except.ok.inj h
  have hraw := ensure_eq_ok.mp hraw
  obtain ⟨hdocument, hnodes, hbound⟩ := parseJson_eq_ok hroot
  have hvisits : Visits read field container (maxDepth + 1) := visit_finds (maxDepth + 1)
  obtain ⟨found, texts, hfound, hadvances⟩ := hvisits (Nat.add_zero _) hwalk
  have hvalues : walk.values = found := hadvances.values
  have hdecoded : walk.decoded = raw.length + (texts.map List.length).sum := hadvances.decoded
  have htotal : walk.nodes = root.2 + (texts.map fun text => (read text).1.nodes).sum :=
    hadvances.nodes
  have hbounded := hadvances.bounded ⟨hbound, Nat.le_trans hraw (by decide)⟩
  refine ⟨root.1, texts, hdocument, hvalues ▸ hfound, ?_, ?_⟩
  · rw [List.map_cons, List.sum_cons, ← hdecoded]
    exact hbounded.2
  · rw [List.map_cons, List.sum_cons]
    have hlimit : walk.nodes ≤ 1024 := hbounded.1
    omega

end Walk

/-! ## A document whose keys are out of order -/

def outOfOrder : Bytes :=
  ascii "\x7b\"b\":\x7b\"f\":\"1\"\x7d,\"a\":\x7b\"f\":\"2\"\x7d\x7d"

/-- The same document as a JSON string. -/
def outOfOrderString : Bytes :=
  ascii "\"\x7b\\\"b\\\":\x7b\\\"f\\\":\\\"1\\\"\x7d,\\\"a\\\":\x7b\\\"f\\\":\\\"2\\\"\x7d\x7d\""

/-- An object whose one member is `f`. -/
def fieldOnly (value : String) : Source :=
  .map (.member (ascii "f") (.scalar (.string (ascii value))) .done)

/-- What the parser offers for the two texts. -/
def sampleRead (text : Bytes) : Source × Bool :=
  if text = outOfOrder then
    (.map (.member (ascii "b") (fieldOnly "1") (.member (ascii "a") (fieldOnly "2") .done)), true)
  else if text = outOfOrderString then (.scalar (.string outOfOrder), true)
  else (.broken, true)

theorem nestedValues_complete_bounded_string :
    nestedValues sampleRead (ascii "f") (some (ascii "c")) outOfOrderString =
        .ok [ascii "2", ascii "1"] ∧
      ∃ root texts, document sampleRead outOfOrderString = some root ∧
        Finds sampleRead (ascii "f") (some (ascii "c")) 0 (.value (some (ascii "c")) root)
          [ascii "2", ascii "1"] texts ∧
        ((outOfOrderString :: texts).map List.length).sum ≤ 16384 ∧
        ((outOfOrderString :: texts).map fun text => (sampleRead text).1.nodes).sum ≤ 1024 :=
  have h : nestedValues sampleRead (ascii "f") (some (ascii "c")) outOfOrderString =
      .ok [ascii "2", ascii "1"] := by decide +kernel
  ⟨h, nestedValues_complete_bounded h⟩

/-- The values do not come in document order: `b` stands before `a` in the text, its value is
    returned after that of `a`. -/
theorem nestedValues_key_order :
    (sampleRead outOfOrder).1 =
        .map (.member (ascii "b") (fieldOnly "1") (.member (ascii "a") (fieldOnly "2") .done)) ∧
      nestedValues sampleRead (ascii "f") (some (ascii "c")) outOfOrder =
        .ok [ascii "2", ascii "1"] := by
  refine ⟨?_, by decide +kernel⟩
  unfold sampleRead
  rw [if_pos rfl]

end RequestBlocks
