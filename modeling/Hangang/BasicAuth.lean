import Hangang.Proxy.Headers

/-! # HTTP Basic Credentials

    The model of `basic_auth.rs`: configured credentials in two formats, a salted
    SHA-256 digest or a SHA-1 digest with a suffix, and the verification of a
    request against all of them.

    Verification does the same work whichever user is named. It goes over every
    credential, selects salt, digest and position of the one that matches without
    branching, and computes one digest of either kind at the end.

    * **Selection**: what is compared at the end is the data of the credential
      with the submitted name, alone.
    * **Precedence**: a name that `Proxy-Authorization` presents and that is known
      settles the request. -/

open Bytes Http Except

namespace BasicAuth

/-! ## Credentials -/

/-- The crates the module calls: digests, the two base64 alphabets and the JSON reader of
    an identity map. -/
structure Crates where
  sha256 : Bytes → Vector UInt8 32
  sha1 : Bytes → Vector UInt8 20
  decodeStandard : Bytes → Option Bytes
  decodeUrlSafe : Bytes → Option Bytes
  readIdentity : Bytes → Option (List (Bytes × Option Bytes))

abbrev IdentityHeaders : Type := List (Bytes × Option Bytes)

/-- The secret of a configured credential. -/
inductive Secret where
  | sha256 (salt : Bytes) (hash : Vector UInt8 32)
  | sha1Suffix (suffix : Bytes) (hash : Vector UInt8 20)
deriving DecidableEq

/-- A credential as its entry spells it. -/
structure Credential where
  username : Bytes
  secret : Secret
  identityHeaders : IdentityHeaders
deriving DecidableEq

/-- `PreparedPassword`. -/
inductive PreparedPassword where
  | sha256 (salt : Vector UInt8 64) (saltLen : UInt8) (hash : Vector UInt8 32)
  | sha1Suffix (suffix : Vector UInt8 255) (suffixLen : UInt8) (hash : Vector UInt8 20)

structure PreparedCredential where
  usernameHash : Vector UInt8 32
  password : PreparedPassword
  identityHeaders : IdentityHeaders

structure Authenticated where
  username : Bytes
  identityHeaders : IdentityHeaders
deriving DecidableEq

variable (crates : Crates)

/-- A zeroed array with the bytes copied to its start. -/
def padded (n : Nat) (bytes : Bytes) : Vector UInt8 n := Vector.ofFn fun i => bytes.getD i 0

def Secret.prepare : Secret → PreparedPassword
  | .sha256 salt hash => .sha256 (padded 64 salt) (UInt8.ofNat salt.length) hash
  | .sha1Suffix suffix hash => .sha1Suffix (padded 255 suffix) (UInt8.ofNat suffix.length) hash

def Credential.prepare (credential : Credential) : PreparedCredential where
  usernameHash := crates.sha256 credential.username
  password := credential.secret.prepare
  identityHeaders := credential.identityHeaders

/-! ## Entries -/

/-- `context` on a missing value. -/
def context {α : Type} (message : String) (x : Option α) : Except String α :=
  x.elim (.error message) .ok

/-- `try_into` to an array. -/
def tryInto (n : Nat) (bytes : Bytes) : Option (Vector UInt8 n) :=
  if h : bytes.length = n then some ⟨bytes.toArray, h⟩ else none

/-- `nibble`. -/
def nibble (b : UInt8) : Option UInt8 :=
  if isAsciiDigit b then some (b - 48)
  else if 97 ≤ b && b ≤ 102 then some (b - 97 + 10)
  else if 65 ≤ b && b ≤ 70 then some (b - 65 + 10)
  else none

/-- The pairs of `hex_decode`. -/
def hexPairs : Bytes → Option Bytes
  | high :: low :: rest => do
    let high ← nibble high
    let low ← nibble low
    let rest ← hexPairs rest
    return ((high <<< 4) ||| low) :: rest
  | _ => some []

/-- `hex_decode`. -/
def hexDecode (value : Bytes) : Option Bytes :=
  if value.length % 2 != 0 || value.isEmpty then none else hexPairs value

/-- `validate_username`. -/
def validateUsername (username : Bytes) : Except String Unit :=
  ensure (!username.isEmpty && username.length ≤ 255 && !username.contains 58 &&
      Utf8.trim username == username && (Utf8.chars username).all (!Utf8.isControl ·))
    ("basic-auth username must contain 1..255 non-control bytes, no colon, " ++
      "and no surrounding whitespace")

/-- `parse_credential`. -/
def parseCredential (entry : Bytes) : Except String (Bytes × Bytes × Bytes) := do
  let first ← context "credential missing salt" (splitOnce 58 entry)
  let second ← context "credential missing hash" (splitOnce 58 first.2)
  validateUsername first.1
  ensure (32 ≤ second.1.length ∧ second.1.length ≤ 128) "credential salt must contain 16..64 bytes"
  ensure (second.2.length = 64) "credential hash must be 32-byte SHA-256 hex"
  let salt ← context "credential salt is not valid hex" (hexDecode second.1)
  let hash ← context "credential hash is not valid hex" (hexDecode second.2)
  return (first.1, salt, hash)

/-- `decode_bytes`. -/
def decodeBytes (value : Bytes) (field : String) : Except String Bytes := do
  ensure (!value.isEmpty) ("credential " ++ field ++ " is empty")
  context ("credential " ++ field ++ " is not base64url") (crates.decodeUrlSafe value)

/-- `decode_text`. -/
def decodeText (value : Bytes) (field : String) : Except String Bytes := do
  let bytes ← decodeBytes crates value field
  ensure (Utf8.isValid bytes) ("credential " ++ field ++ " is not UTF-8")
  return bytes

def unsafeIdentityHeader (name : Bytes) : Bool :=
  [ascii "authorization", ascii "proxy-authorization", ascii "host", ascii "connection",
    ascii "content-length", ascii "transfer-encoding", ascii "upgrade", ascii "te",
    ascii "trailer", ascii "keep-alive", ascii "proxy-connection"].contains name

/-- One header of an identity map. -/
def identityHeader (entry : Bytes × Option Bytes) : Except String (Bytes × Option Bytes) := do
  let name ← context "invalid identity header name" (headerName entry.1)
  ensure (!unsafeIdentityHeader name) "unsafe identity header name"
  let value ← entry.2.elim (.ok none) fun value =>
    (context "invalid identity header value" (Proxy.headerValue value)).map some
  return (name, value)

/-- The `sha1-suffix` format of `parse_prepared`, up to the padding of the suffix. -/
def parseSuffix (entry : Bytes) : Except String Credential := do
  let parts := entry.splitOn 58
  ensure (parts[0]? = some (ascii "v1")) "invalid credential version"
  ensure (parts[1]? = some (ascii "sha1-suffix")) "invalid credential algorithm"
  let username ← decodeText crates (parts[2]?.getD []) "username"
  validateUsername username
  let suffix ← decodeBytes crates (parts[3]?.getD []) "suffix"
  ensure (!suffix.isEmpty ∧ suffix.length ≤ 255) "credential suffix must contain 1..255 bytes"
  let hash ← context "credential missing hash" parts[4]?
  ensure (hash.length = 40) "credential hash must be 20-byte SHA-1 hex"
  let hash ← context "credential hash is not valid hex" (hexDecode hash)
  let hash ← context "validated SHA-1 digest length" (tryInto 20 hash)
  let identity ← context "credential missing identity map" parts[5]?
  ensure (parts[6]? = none) "credential has unexpected fields"
  let identity ← decodeBytes crates identity "identity map"
  ensure (identity.length ≤ 4096) "credential identity map exceeds 4096 bytes"
  let identity ← context "credential identity map is invalid JSON" (crates.readIdentity identity)
  ensure (identity.length ≤ 16) "credential identity map exceeds 16 headers"
  let identity ← identity.mapM identityHeader
  ensure (identity.map Prod.fst).Nodup "duplicate credential identity header"
  return ⟨username, .sha1Suffix suffix hash, identity⟩

/-- What `parse_prepared` reads from an entry. -/
def parseEntry (entry : Bytes) : Except String Credential :=
  if (ascii "v1:sha1-suffix:").isPrefixOf entry then parseSuffix crates entry
  else do
    let parsed ← parseCredential entry
    let hash ← context "validated SHA-256 digest length" (tryInto 32 parsed.2.2)
    return ⟨parsed.1, .sha256 parsed.2.1 hash, []⟩

/-- `parse_prepared`. -/
def parsePrepared (entry : Bytes) : Except String PreparedCredential :=
  (parseEntry crates entry).map (·.prepare crates)

/-- `prepare`. -/
def prepare (entries : List Bytes) : Except String (List PreparedCredential) :=
  entries.mapM (parsePrepared crates)

/-! ## Verification -/

/-- `split_once` at the first white space of a visible ASCII text. -/
def splitWhitespace (text : Bytes) : Option (Bytes × Bytes) :=
  match text.dropWhile (fun b => !(b == 32 || b == 9)) with
  | [] => none
  | _ :: rest => some (text.takeWhile (fun b => !(b == 32 || b == 9)), rest)

/-- `parse_basic_header`. -/
def parseBasicHeader (headers : Fields) (name : Bytes) : Option (Bytes × Bytes) :=
  match headers.getAll name with
  | [value] => do
    let value ← toStr value
    let parts ← splitWhitespace value
    guard (eqIgnoreAsciiCase parts.1 (ascii "basic"))
    let encoded := Utf8.trim parts.2
    guard (!(encoded.isEmpty || 5464 < encoded.length || encoded.any Proxy.isWhitespaceByte))
    let decoded ← crates.decodeStandard encoded
    guard (decoded.length ≤ 4096 ∧ Utf8.isValid decoded)
    let submitted ← splitOnce 58 decoded
    guard (!submitted.1.isEmpty)
    return submitted
  | _ => none

/-- `conditional_select`. -/
def conditionalSelect {α : Type} (a b : α) (choice : Bool) : α := if choice then b else a

/-- The loop that selects the bytes of an array. -/
def selectBytes {n : Nat} (selected candidate : Vector UInt8 n) (choice : Bool) :
    Vector UInt8 n :=
  Vector.zipWith (fun a b => conditionalSelect a b choice) selected candidate

/-- The variables of the loop of `verify_credentials`. -/
structure Selection where
  matchedUsername : Bool
  salt : Vector UInt8 64
  saltLen : UInt8
  expectedSha256 : Vector UInt8 32
  suffix : Vector UInt8 255
  suffixLen : UInt8
  expectedSha1 : Vector UInt8 20
  sha256Selected : Bool
  sha1Selected : Bool
  index : Nat

def Selection.initial : Selection where
  matchedUsername := false
  salt := Vector.replicate 64 0x5a
  saltLen := 16
  expectedSha256 := Vector.replicate 32 0
  suffix := Vector.replicate 255 0xa5
  suffixLen := 16
  expectedSha1 := Vector.replicate 20 0
  sha256Selected := false
  sha1Selected := false
  index := 0

/-- One turn of the loop of `verify_credentials`. -/
def Selection.select (userHash : Vector UInt8 32) (s : Selection)
    (entry : PreparedCredential × Nat) : Selection :=
  let matched := entry.1.usernameHash == userHash
  let s := { s with
    matchedUsername := s.matchedUsername || matched
    index := conditionalSelect s.index entry.2 matched }
  match entry.1.password with
  | .sha256 salt saltLen hash =>
    { s with
      sha256Selected := s.sha256Selected || matched
      salt := selectBytes s.salt salt matched
      saltLen := conditionalSelect s.saltLen saltLen matched
      expectedSha256 := selectBytes s.expectedSha256 hash matched }
  | .sha1Suffix suffix suffixLen hash =>
    { s with
      sha1Selected := s.sha1Selected || matched
      suffix := selectBytes s.suffix suffix matched
      suffixLen := conditionalSelect s.suffixLen suffixLen matched
      expectedSha1 := selectBytes s.expectedSha1 hash matched }

/-- The digests `verify_credentials` computes behind the loop, compared with the selected
    ones. -/
def Selection.accepts (s : Selection) (password : Bytes) : Bool :=
  let native := (crates.sha256 (s.salt.toList.take s.saltLen.toNat ++ password) ==
    s.expectedSha256) && s.sha256Selected
  let suffix := (crates.sha1 (password ++ s.suffix.toList.take s.suffixLen.toNat) ==
    s.expectedSha1) && s.sha1Selected
  s.matchedUsername && (native || suffix)

/-- `verify_credentials`; the index of an authenticated user is in bounds, which is shown
    below. -/
def verifyCredentials (prepared : List PreparedCredential) (user password : Bytes) :
    Option Authenticated × Bool :=
  let s := prepared.zipIdx.foldl (Selection.select (crates.sha256 user)) Selection.initial
  (if s.accepts crates password then
    prepared[s.index]?.map fun credential => ⟨user, credential.identityHeaders⟩ else none,
    s.matchedUsername)

/-- `verify`. -/
def verify (prepared : List PreparedCredential) (headers : Fields) : Option Authenticated := do
  let submitted ← parseBasicHeader crates headers (ascii "authorization")
  (verifyCredentials crates prepared submitted.1 submitted.2).1

/-- `verify_with_proxy`. -/
def verifyWithProxy (prepared : List PreparedCredential) (headers : Fields) :
    Option Authenticated :=
  match parseBasicHeader crates headers (ascii "proxy-authorization") with
  | some submitted =>
    let verified := verifyCredentials crates prepared submitted.1 submitted.2
    if verified.2 then verified.1 else verify crates prepared headers
  | none => verify crates prepared headers

/-! ## What an entry guarantees -/

/-- The secret fits the arrays it is copied to. -/
def Secret.Fits : Secret → Prop
  | .sha256 salt _ => salt.length ≤ 64
  | .sha1Suffix suffix _ => suffix.length ≤ 255

theorem context_eq_ok {α : Type} {message : String} {x : Option α} {a : α} :
    context message x = .ok a ↔ x = some a := by
  cases x <;> simp [context]

theorem length_hexPairs {value bytes : Bytes} (h : hexPairs value = some bytes) :
    bytes.length = value.length / 2 := by
  fun_induction hexPairs value generalizing bytes with
  | case1 high low rest ih =>
    obtain ⟨h4, -, h⟩ := Option.bind_eq_some_iff.mp h
    obtain ⟨l4, -, h⟩ := Option.bind_eq_some_iff.mp h
    obtain ⟨tail, htail, h⟩ := Option.bind_eq_some_iff.mp h
    rw [← Option.some.inj h, List.length_cons, ih htail, List.length_cons, List.length_cons]
    omega
  | case2 value hshort =>
    obtain rfl := Option.some.inj h
    -- what is left has at most one byte
    rcases value with _ | ⟨high, _ | ⟨low, rest⟩⟩
    · rfl
    · simp
    · exact absurd rfl (hshort high low rest)

theorem length_hexDecode {value bytes : Bytes} (h : hexDecode value = some bytes) :
    bytes.length = value.length / 2 :=
  length_hexPairs (Option.ite_none_left_eq_some.mp h).2

/-- Only what fits is accepted. -/
theorem fits_of_parseEntry {entry : Bytes} {credential : Credential}
    (h : parseEntry crates entry = .ok credential) : credential.secret.Fits := by
  unfold parseEntry at h
  split at h
  · unfold parseSuffix at h
    iterate 4 obtain ⟨_, -, h⟩ := bind_eq_ok.mp h
    obtain ⟨suffix, -, h⟩ := bind_eq_ok.mp h
    obtain ⟨_, hsuffix, h⟩ := bind_eq_ok.mp h
    iterate 12 obtain ⟨_, -, h⟩ := bind_eq_ok.mp h
    rw [← Except.ok.inj h]
    exact (ensure_eq_ok.mp hsuffix).2
  · obtain ⟨parsed, hparsed, h⟩ := bind_eq_ok.mp h
    obtain ⟨hash, -, h⟩ := bind_eq_ok.mp h
    rw [← Except.ok.inj h]
    unfold parseCredential at hparsed
    obtain ⟨first, -, hparsed⟩ := bind_eq_ok.mp hparsed
    obtain ⟨second, -, hparsed⟩ := bind_eq_ok.mp hparsed
    obtain ⟨_, -, hparsed⟩ := bind_eq_ok.mp hparsed
    obtain ⟨_, hlength, hparsed⟩ := bind_eq_ok.mp hparsed
    obtain ⟨_, -, hparsed⟩ := bind_eq_ok.mp hparsed
    obtain ⟨salt, hsalt, hparsed⟩ := bind_eq_ok.mp hparsed
    obtain ⟨_, -, hparsed⟩ := bind_eq_ok.mp hparsed
    rw [← Except.ok.inj hparsed]
    have hsalt := length_hexDecode (context_eq_ok.mp hsalt)
    have hlength := (ensure_eq_ok.mp hlength).2
    show salt.length ≤ 64
    omega

theorem prepare_eq_map {entries : List Bytes} {credentials : List Credential}
    (h : entries.mapM (parseEntry crates) = .ok credentials) :
    prepare crates entries = .ok (credentials.map (·.prepare crates)) ∧
      ∀ c ∈ credentials, c.secret.Fits := by
  induction entries generalizing credentials with
  | nil =>
    obtain rfl := Except.ok.inj h
    exact ⟨rfl, by simp⟩
  | cons entry entries ih =>
    obtain ⟨c, hc, h⟩ := bind_eq_ok.mp ((List.mapM_cons).symm.trans h)
    obtain ⟨rest, hrest, h⟩ := bind_eq_ok.mp h
    obtain rfl := Except.ok.inj h
    obtain ⟨hprepared, hfits⟩ := ih hrest
    constructor
    · have hfirst : parsePrepared crates entry = .ok (c.prepare crates) := by
        rw [parsePrepared, hc]
        rfl
      unfold prepare at hprepared ⊢
      rw [List.mapM_cons, hfirst, hprepared]
      rfl
    · intro c' hc'
      rcases List.mem_cons.mp hc' with rfl | hc'
      · exact fits_of_parseEntry crates hc
      · exact hfits c' hc'

/-! ## The selection -/

/-- The password hashes to the digest of the secret, under its own salt or suffix. -/
def Secret.accepts (secret : Secret) (password : Bytes) : Bool :=
  match secret with
  | .sha256 salt hash => crates.sha256 (salt ++ password) == hash
  | .sha1Suffix suffix hash => crates.sha1 (password ++ suffix) == hash

@[simp] theorem initial_matchedUsername : Selection.initial.matchedUsername = false := rfl

@[simp] theorem initial_sha256Selected : Selection.initial.sha256Selected = false := rfl

@[simp] theorem initial_sha1Selected : Selection.initial.sha1Selected = false := rfl

theorem selectBytes_true {n : Nat} (selected candidate : Vector UInt8 n) :
    selectBytes selected candidate true = candidate := by
  ext i hi
  simp [selectBytes, conditionalSelect]

theorem selectBytes_false {n : Nat} (selected candidate : Vector UInt8 n) :
    selectBytes selected candidate false = selected := by
  ext i hi
  simp [selectBytes, conditionalSelect]

theorem take_padded {n : Nat} {bytes : Bytes} (h : bytes.length ≤ n) (hn : n < 256) :
    (padded n bytes).toList.take (bytes.length % 256) = bytes := by
  rw [Nat.mod_eq_of_lt (by omega)]
  apply List.ext_getElem
  · simp [h]
  · intro i h1 h2
    simp [padded, h2]

/-- **Frame**: a turn over a credential of another name changes nothing. -/
theorem select_of_ne {userHash : Vector UInt8 32} {entry : PreparedCredential × Nat}
    (h : entry.1.usernameHash ≠ userHash) (s : Selection) : s.select userHash entry = s := by
  have hmatched : (entry.1.usernameHash == userHash) = false := by simpa using h
  unfold Selection.select
  simp only [hmatched, Bool.or_false]
  cases entry.1.password with
  | sha256 salt saltLen hash => simp [selectBytes_false, conditionalSelect]
  | sha1Suffix suffix suffixLen hash => simp [selectBytes_false, conditionalSelect]

theorem foldl_select_of_ne {userHash : Vector UInt8 32} {entries : List (PreparedCredential × Nat)}
    (h : ∀ entry ∈ entries, entry.1.usernameHash ≠ userHash) (s : Selection) :
    entries.foldl (Selection.select userHash) s = s := by
  induction entries with
  | nil => rfl
  | cons entry entries ih =>
    rw [List.foldl_cons, select_of_ne (h entry (by simp))]
    exact ih fun e he => h e (by simp [he])

/-- The turn over the credential that matches leaves its data, and nothing selected of the
    other kind. -/
theorem accepts_select (c : Credential) (hfits : c.secret.Fits) (index : Nat) (password : Bytes)
    {s : Selection}
    (hs : s = Selection.initial.select (crates.sha256 c.username) (c.prepare crates, index)) :
    s.accepts crates password = c.secret.accepts crates password ∧ s.index = index ∧
      s.matchedUsername = true := by
  subst hs
  obtain ⟨username, secret, identityHeaders⟩ := c
  cases secret with
  | sha256 salt hash =>
    have htake := take_padded (show salt.length ≤ 64 from hfits) (by decide)
    simp [Selection.select, Selection.accepts, Credential.prepare, Secret.prepare, Secret.accepts,
      selectBytes_true, conditionalSelect, htake]
  | sha1Suffix suffix hash =>
    have htake := take_padded (show suffix.length ≤ 255 from hfits) (by decide)
    simp [Selection.select, Selection.accepts, Credential.prepare, Secret.prepare, Secret.accepts,
      selectBytes_true, conditionalSelect, htake]

section selection

variable {credentials : List Credential} {user password : Bytes}

/-- An unknown name. -/
theorem verifyCredentials_unknown
    (h : ∀ c ∈ credentials, crates.sha256 c.username ≠ crates.sha256 user) :
    verifyCredentials crates (credentials.map (·.prepare crates)) user password =
      (none, false) := by
  have hother : ∀ entry ∈ (credentials.map (·.prepare crates)).zipIdx,
      entry.1.usernameHash ≠ crates.sha256 user := by
    intro entry hentry
    obtain ⟨c, hc, hprepare⟩ := List.mem_map.mp (List.fst_mem_of_mem_zipIdx hentry)
    rw [← hprepare]
    exact h c hc
  have hfold := foldl_select_of_ne hother Selection.initial
  unfold verifyCredentials
  rw [hfold]
  simp [Selection.accepts]

/-- **Selection**: the loop leaves the data of the credential with the submitted name, and
    no other credential's. -/
theorem verifyCredentials_known {c : Credential} (hc : c ∈ credentials) (hfits : c.secret.Fits)
    (hdistinct : (credentials.map Credential.username).Nodup)
    (hcollision : ∀ c' ∈ credentials,
      crates.sha256 c'.username = crates.sha256 c.username → c'.username = c.username) :
    verifyCredentials crates (credentials.map (·.prepare crates)) c.username password =
      (if c.secret.accepts crates password then some ⟨c.username, c.identityHeaders⟩ else none,
        true) := by
  obtain ⟨before, after, rfl⟩ := List.append_of_mem hc
  -- no credential beside `c` has its name, so none has its hash
  have hother : ∀ c' ∈ before ++ after, crates.sha256 c'.username ≠ crates.sha256 c.username := by
    intro c' hc' hhash
    have hname := hcollision c' (by simp at hc' ⊢; tauto) hhash
    rw [List.map_append, List.map_cons, List.nodup_middle, List.nodup_cons] at hdistinct
    exact hdistinct.1 (by rw [← List.map_append, ← hname]; exact List.mem_map_of_mem hc')
  have hframe : ∀ (l : List Credential) (start : Nat) (s : Selection),
      (∀ c' ∈ l, c' ∈ before ++ after) →
      ((l.map (·.prepare crates)).zipIdx start).foldl
        (Selection.select (crates.sha256 c.username)) s = s := by
    intro l start s hl
    apply foldl_select_of_ne
    intro entry hentry
    obtain ⟨c', hc', hprepare⟩ := List.mem_map.mp (List.fst_mem_of_mem_zipIdx hentry)
    rw [← hprepare]
    exact hother c' (hl c' hc')
  obtain ⟨haccepts, hindex, hmatched⟩ := accepts_select crates c hfits before.length password rfl
  unfold verifyCredentials
  simp only [List.map_append, List.map_cons, List.zipIdx_append, List.zipIdx_cons,
    List.foldl_append, List.foldl_cons, List.length_map, Nat.zero_add]
  rw [hframe before 0 _ (by simp; tauto), hframe after _ _ (by simp; tauto), haccepts, hindex,
    hmatched]
  simp [Credential.prepare]

end selection

/-- **Basic credentials**: a request is authenticated, with the identity headers of a
    credential, just when its one well-formed header has the name of that credential and a
    password that hashes to its digest. The outcome is that of a list with this credential
    alone; and a wrong password for a known name in `Proxy-Authorization` is final. SHA-256
    is taken to tell the names of the request from those of the credentials. -/
theorem basic_credential_selection (entries : List Bytes) (credentials : List Credential)
    (hparse : entries.mapM (parseEntry crates) = .ok credentials)
    (hdistinct : (credentials.map Credential.username).Nodup) (headers : Fields)
    (hcollision : ∀ name user password,
      parseBasicHeader crates headers name = some (user, password) →
        ∀ c ∈ credentials, crates.sha256 c.username = crates.sha256 user → c.username = user) :
    ∃ prepared, prepare crates entries = .ok prepared ∧
      (∀ user identity, verify crates prepared headers = some ⟨user, identity⟩ ↔
        ∃ password, parseBasicHeader crates headers (ascii "authorization") =
            some (user, password) ∧
          ∃ c ∈ credentials, c.username = user ∧ c.identityHeaders = identity ∧
            c.secret.accepts crates password = true) ∧
      (∀ name password, ∀ c ∈ credentials,
        parseBasicHeader crates headers name = some (c.username, password) →
          verifyCredentials crates prepared c.username password =
            verifyCredentials crates [c.prepare crates] c.username password) ∧
      ∀ password, ∀ c ∈ credentials,
        parseBasicHeader crates headers (ascii "proxy-authorization") =
            some (c.username, password) →
          c.secret.accepts crates password = false →
            verifyWithProxy crates prepared headers = none := by
  obtain ⟨hprepare, hfits⟩ := prepare_eq_map crates hparse
  -- the four parts read the selection off at the credential with the submitted name
  have hknown : ∀ name password, ∀ c ∈ credentials,
      parseBasicHeader crates headers name = some (c.username, password) →
      verifyCredentials crates (credentials.map (·.prepare crates)) c.username password =
        (if c.secret.accepts crates password then some ⟨c.username, c.identityHeaders⟩ else none,
          true) := by
    intro name password c hc hsubmitted
    apply verifyCredentials_known crates hc (hfits c hc) hdistinct
    exact hcollision name c.username password hsubmitted
  refine ⟨_, hprepare, ?_, ?_, ?_⟩
  · intro user identity
    constructor
    · intro h
      obtain ⟨⟨user', password⟩, hsubmitted, h⟩ := Option.bind_eq_some_iff.mp h
      by_cases hname : ∃ c ∈ credentials, c.username = user'
      · obtain ⟨c, hc, rfl⟩ := hname
        rw [hknown _ password c hc hsubmitted] at h
        obtain ⟨haccepts, h⟩ := Option.ite_none_right_eq_some.mp h
        obtain ⟨rfl, rfl⟩ := Authenticated.mk.inj (Option.some.inj h)
        exact ⟨password, hsubmitted, c, hc, rfl, rfl, haccepts⟩
      · rw [verifyCredentials_unknown] at h
        · cases h
        · intro c hc hhash
          exact hname ⟨c, hc, hcollision _ user' password hsubmitted c hc hhash⟩
    · intro h
      obtain ⟨password, hsubmitted, c, hc, rfl, rfl, haccepts⟩ := h
      refine Option.bind_eq_some_iff.mpr ⟨_, hsubmitted, ?_⟩
      rw [hknown _ password c hc hsubmitted, if_pos haccepts]
  · intro name password c hc hsubmitted
    have halone := @verifyCredentials_known crates [c] password c (by simp) (hfits c hc)
      (by simp) (by simp)
    rw [hknown name password c hc hsubmitted]
    exact halone.symm
  · intro password c hc hsubmitted hwrong
    unfold verifyWithProxy
    simp [hsubmitted, hknown _ password c hc hsubmitted, hwrong]

namespace Sample

/-- A digest that is written in hex. -/
def digest (n : Nat) (hex : String) : Vector UInt8 n :=
  padded n ((hexDecode (ascii hex)).getD [])

/-- The crates on what two credentials and a request give them. -/
def libraries : Crates where
  sha256 input := digest 32
    (if input = ascii "alice" then
      "2bd806c97f0e00af1a1fc3328fa763a9269723c8db8fac4f93af71db186d6e90"
    else if input = ascii "bob" then
      "81b637d8fcd2c6da6359e6963113a1170de795e4b725b84d1e0b4cfd9ec58ce9"
    else if input = List.replicate 16 0 ++ ascii "pw" then
      "4bc19d7a675e714e1fd4715aa9c1f9b936bc2850b9d876c1d05638d4e0bbb63e"
    else "")
  sha1 input := digest 20
    (if input = ascii "pwxy" then "eb4bba9c1f5f4f56ec91a5b714564bb1b82584e1" else "")
  decodeStandard text := if text = ascii "YWxpY2U6cHc=" then some (ascii "alice:pw") else none
  decodeUrlSafe text := [(ascii "Ym9i", ascii "bob"), (ascii "eHk", ascii "xy"),
    (ascii "e30", ascii "\x7b\x7d")].lookup text
  readIdentity text := if text = ascii "\x7b\x7d" then some [] else none

/-- A user of either format. -/
def entries : List Bytes :=
  [ascii ("alice:00000000000000000000000000000000:" ++
      "4bc19d7a675e714e1fd4715aa9c1f9b936bc2850b9d876c1d05638d4e0bbb63e"),
    ascii "v1:sha1-suffix:Ym9i:eHk:eb4bba9c1f5f4f56ec91a5b714564bb1b82584e1:e30"]

def headers : Fields :=
  Fields.empty.insert (ascii "authorization") (ascii "Basic YWxpY2U6cHc=")

end Sample

theorem basic_credential_selection_alice :
    ∃ prepared, prepare Sample.libraries Sample.entries = .ok prepared ∧
      verify Sample.libraries prepared Sample.headers = some ⟨ascii "alice", []⟩ := by
  obtain ⟨prepared, hprepare, hverify, -⟩ := basic_credential_selection Sample.libraries
    Sample.entries
    [⟨ascii "alice", .sha256 (List.replicate 16 0)
        (Sample.digest 32 "4bc19d7a675e714e1fd4715aa9c1f9b936bc2850b9d876c1d05638d4e0bbb63e"), []⟩,
      ⟨ascii "bob", .sha1Suffix (ascii "xy")
        (Sample.digest 20 "eb4bba9c1f5f4f56ec91a5b714564bb1b82584e1"), []⟩]
    (by decide +kernel) (by decide +kernel) Sample.headers (by
      intro name user password hsubmitted c hc hhash
      by_cases hname : name = ascii "authorization"
      · rw [hname] at hsubmitted
        have hparsed : parseBasicHeader Sample.libraries Sample.headers
            (ascii "authorization") = some (ascii "alice", ascii "pw") := by decide +kernel
        obtain ⟨rfl, rfl⟩ := Prod.mk.inj (Option.some.inj (hparsed.symm.trans hsubmitted))
        revert c
        decide +kernel
      · simp [parseBasicHeader, Sample.headers, hname] at hsubmitted)
  refine ⟨prepared, hprepare, (hverify _ _).mpr ?_⟩
  exact ⟨ascii "pw", by decide +kernel, _, List.mem_cons_self, rfl, rfl, by decide +kernel⟩

end BasicAuth
