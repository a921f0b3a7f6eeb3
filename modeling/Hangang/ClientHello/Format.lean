import Hangang.ClientHello.Parse
import Hangang.Framework.Framing
import Hangang.Framework.Items

/-! # The Format of a ClientHello

    What a ClientHello body is, as a value with its encoding, and that
    `parse_client_hello` accepts exactly the encodings.

    * **Cursor**: each read succeeds on its field followed by anything.
    * **Lists**: the loops over names and extensions accept the concatenated items
      with distinct types, and nothing else.
    * **Exactness**: both directions for the whole body. -/

open Bytes Except

namespace ClientHello

/-! ## The format -/

/-- A byte string with its length in one byte. -/
def vector8 (value : Bytes) : Bytes := beBytes 1 value.length ++ value

/-- A byte string with its length in two bytes. -/
def vector16 (value : Bytes) : Bytes := beBytes 2 value.length ++ value

/-- An entry of the server name list. -/
structure ServerName where
  nameType : UInt8
  name : Bytes
  nonempty : name ≠ []
  length_lt : name.length < 65536

def ServerName.encode (entry : ServerName) : Bytes := entry.nameType :: vector16 entry.name

structure ServerNameList where
  entries : List ServerName
  nonempty : entries ≠ []
  distinct : (entries.map ServerName.nameType).Nodup
  length_lt : (entries.flatMap ServerName.encode).length < 65536

def ServerNameList.encode (list : ServerNameList) : Bytes :=
  vector16 (list.entries.flatMap ServerName.encode)

structure Extension where
  extensionType : Nat
  value : Bytes
  type_lt : extensionType < 65536
  length_lt : value.length < 65536

def Extension.encode (extension : Extension) : Bytes :=
  beBytes 2 extension.extensionType ++ vector16 extension.value

/-- A well-formed body. -/
structure Body where
  legacyVersion : Bytes
  random : Bytes
  sessionId : Bytes
  cipherSuites : Bytes
  compressionMethods : Bytes
  extensions : List Extension
  version_length : legacyVersion.length = 2
  random_length : random.length = 32
  session_length : sessionId.length ≤ 32
  cipher_length : 2 ≤ cipherSuites.length ∧ cipherSuites.length % 2 = 0 ∧ cipherSuites.length < 65536
  compression_length : 0 < compressionMethods.length ∧ compressionMethods.length < 256
  distinct : (extensions.map Extension.extensionType).Nodup
  extensions_length : (extensions.flatMap Extension.encode).length < 65536

def Body.encode (body : Body) : Bytes :=
  body.legacyVersion ++ (body.random ++ (vector8 body.sessionId ++ (vector16 body.cipherSuites ++
    (vector8 body.compressionMethods ++ vector16 (body.extensions.flatMap Extension.encode)))))

/-! ## Host names -/

/-- A DNS label. -/
structure HostLabel (label : Bytes) : Prop where
  nonempty : label ≠ []
  length_le : label.length ≤ 63
  bytes : ∀ b ∈ label, isAsciiAlphanumeric b = true ∨ b = 45
  head : label.head? ≠ some 45
  last : label.getLast? ≠ some 45

/-- `host` is a DNS host name, and `canonical` the same in lower case. -/
structure Canonicalises (host canonical : Bytes) : Prop where
  length_le : host.length ≤ 253
  not_ip : IpAddr.parse host = none
  labels : ∀ label ∈ splitOn 46 host, HostLabel label
  lower : canonical = host.map toAsciiLowercase

/-- The server name extension has this host name. -/
def Body.Requests (body : Body) (host : Bytes) : Prop :=
  ∃ extension ∈ body.extensions, extension.extensionType = 0 ∧
    ∃ list : ServerNameList, list.encode = extension.value ∧
      ∃ entry ∈ list.entries, entry.nameType = 0 ∧ Canonicalises entry.name host

/-! ## The cursor -/

section cursor

variable {field : String} {input rest : Bytes}

theorem take_eq_ok {amount : Nat} {bytes : Bytes} :
    take amount field input = .ok (bytes, rest) ↔ bytes.length = amount ∧ input = bytes ++ rest := by
  unfold take
  split
  · next hlt =>
    refine iff_of_false (fun h => by cases h) ?_
    rintro ⟨rfl, rfl⟩
    rw [List.length_append] at hlt
    omega
  · next hge =>
    rw [Except.ok.injEq, Prod.mk.injEq]
    constructor
    · rintro ⟨rfl, rfl⟩
      exact ⟨List.length_take_of_le (Nat.le_of_not_lt hge), (List.take_append_drop _ _).symm⟩
    · rintro ⟨rfl, rfl⟩
      exact ⟨List.take_left, List.drop_left⟩

theorem u8_eq_ok {value : UInt8} : u8 field input = .ok (value, rest) ↔ input = value :: rest := by
  rw [u8, map_eq_ok]
  constructor
  · rintro ⟨⟨bytes, rest'⟩, htake, heq⟩
    obtain ⟨hlength, rfl⟩ := take_eq_ok.mp htake
    obtain ⟨b, rfl⟩ := List.length_eq_one_iff.mp hlength
    obtain ⟨rfl, rfl⟩ := Prod.mk.inj heq
    rfl
  · rintro rfl
    exact ⟨([value], rest), take_eq_ok.mpr ⟨rfl, rfl⟩, rfl⟩

theorem beBytes_be16 (high low : UInt8) : beBytes 2 (be16 high low) = [high, low] := by
  have hhigh := high.toNat_lt
  have hlow := low.toNat_lt
  show [UInt8.ofNat (be16 high low / 256 ^ 1), UInt8.ofNat (be16 high low / 256 ^ 0)] = [high, low]
  have h₁ : UInt8.ofNat (be16 high low / 256 ^ 1) = high := by
    apply UInt8.toNat_inj.mp
    rw [UInt8.toNat_ofNat', be16]
    omega
  have h₂ : UInt8.ofNat (be16 high low / 256 ^ 0) = low := by
    apply UInt8.toNat_inj.mp
    rw [UInt8.toNat_ofNat', be16]
    omega
  rw [h₁, h₂]

theorem be16_lt (high low : UInt8) : be16 high low < 65536 := by
  have hhigh := high.toNat_lt
  have hlow := low.toNat_lt
  unfold be16
  omega

theorem u16_eq_ok {value : Nat} :
    u16 field input = .ok (value, rest) ↔ value < 65536 ∧ input = beBytes 2 value ++ rest := by
  rw [u16, map_eq_ok]
  constructor
  · rintro ⟨⟨bytes, rest'⟩, htake, heq⟩
    obtain ⟨hlength, rfl⟩ := take_eq_ok.mp htake
    obtain ⟨high, low, rfl⟩ := List.length_eq_two.mp hlength
    obtain ⟨rfl, rfl⟩ := Prod.mk.inj heq
    refine ⟨be16_lt high low, ?_⟩
    show [high, low] ++ rest' = beBytes 2 (be16 high low) ++ rest'
    rw [beBytes_be16]
  · rintro ⟨hlt, rfl⟩
    refine ⟨(beBytes 2 value, rest), take_eq_ok.mpr ⟨length_beBytes 2 value, rfl⟩, ?_⟩
    refine Prod.ext ?_ rfl
    obtain ⟨high, low, hbytes⟩ := List.length_eq_two.mp (length_beBytes 2 value)
    show be16 (beBytes 2 value).headI (beBytes 2 value).tail.headI = value
    rw [hbytes]
    apply @beBytes_inj_of_lt 2 _ _ (be16_lt high low) hlt
    rw [hbytes]
    exact beBytes_be16 high low

/-- A length in two bytes and that many bytes. -/
theorem vector16_eq_ok {field' : String} {bytes : Bytes} :
    (∃ length rest', u16 field input = .ok (length, rest') ∧
      take length field' rest' = .ok (bytes, rest)) ↔
      bytes.length < 65536 ∧ input = vector16 bytes ++ rest := by
  simp only [u16_eq_ok, take_eq_ok, vector16]
  constructor
  · rintro ⟨length, rest', ⟨hlt, rfl⟩, rfl, rfl⟩
    exact ⟨hlt, (List.append_assoc _ _ _).symm⟩
  · rintro ⟨hlt, rfl⟩
    exact ⟨_, _, ⟨hlt, List.append_assoc _ _ _⟩, rfl, rfl⟩

end cursor

/-! ## Host names in the parser -/

section hostnames

variable {host canonical : Bytes}

theorem checkLabel_eq_ok {label : Bytes} {u : Unit} : checkLabel label = .ok u ↔ HostLabel label := by
  simp only [checkLabel, bind_eq_ok, ensure_eq_ok, List.all_eq_true, Bool.or_eq_true, beq_iff_eq]
  constructor
  · rintro ⟨-, ⟨hnonempty, hlength⟩, hbytes, hhead, hlast⟩
    exact ⟨hnonempty, hlength, hbytes, hhead, hlast⟩
  · exact fun h => ⟨(), ⟨h.nonempty, h.length_le⟩, h.bytes, h.head, h.last⟩

theorem isAscii_of_labels (h : ∀ label ∈ splitOn 46 host, HostLabel label) :
    HostMatch.isAscii host = true := by
  rw [HostMatch.isAscii, List.all_eq_true]
  intro b hb
  rw [decide_eq_true_eq]
  rcases mem_splitOn_of_mem 46 hb with rfl | ⟨label, hlabel, hmem⟩
  · decide
  · rcases (h label hlabel).bytes b hmem with hbyte | rfl
    · exact lt_of_isAsciiAlphanumeric hbyte
    · decide

theorem getLast?_of_labels (h : ∀ label ∈ splitOn 46 host, HostLabel label) :
    host.getLast? ≠ some 46 := by
  intro hlast
  obtain ⟨before, rfl⟩ := List.getLast?_eq_some_iff.mp hlast
  rw [splitOn_append_cons] at h
  exact (h [] (List.mem_append_right _ List.mem_cons_self)).nonempty rfl

/-- What `canonical_hostname` accepts. Its checks for an empty name, for ASCII and
    for a trailing dot are implied by those of the labels. -/
theorem canonicalHostname_eq_ok :
    canonicalHostname host = .ok canonical ↔ Canonicalises host canonical := by
  simp only [canonicalHostname, bind_eq_ok, ensure_eq_ok, forM_eq_ok, checkLabel_eq_ok,
    Option.isNone_iff_eq_none]
  constructor
  · rintro ⟨-, hlength, -, -, -, -, -, hip, -, hlabels, heq⟩
    exact ⟨hlength.2, hip, hlabels, (Except.ok.inj heq).symm⟩
  · intro h
    have hnonempty : host ≠ [] := by
      rintro rfl
      exact (h.labels [] List.mem_cons_self).nonempty rfl
    exact ⟨(), ⟨hnonempty, h.length_le⟩, (), isAscii_of_labels h.labels, (),
      getLast?_of_labels h.labels, (), h.not_ip, (), h.labels, by rw [h.lower]; rfl⟩

theorem hostName_eq_ok : hostName host = .ok canonical ↔ Canonicalises host canonical := by
  simp only [hostName, bind_eq_ok, ensure_eq_ok, canonicalHostname_eq_ok]
  constructor
  · rintro ⟨-, -, -, -, h⟩
    exact h
  · intro h
    have hascii := isAscii_of_labels h.labels
    exact ⟨(), Utf8.isValid_of_ascii (List.all_eq_true.mp hascii), (), hascii, h⟩

end hostnames

/-! ## The server name list -/

section names

variable {seenTypes : List UInt8} {host result : Option Bytes} {input : Bytes}

theorem nextName_eq_ok {nameType : UInt8} {name rest : Bytes} :
    nextName seenTypes input = .ok (nameType, name, rest) ↔
      nameType ∉ seenTypes ∧ name ≠ [] ∧ name.length < 65536 ∧
        input = nameType :: (vector16 name ++ rest) := by
  simp only [nextName, bind_eq_ok, ensure_eq_ok, Prod.exists, u8_eq_ok]
  constructor
  · rintro ⟨t, x, rfl, -, hseen, length, y, hlength, n, z, hname, -, hnonempty, heq⟩
    obtain ⟨rfl, rfl, rfl⟩ : t = nameType ∧ n = name ∧ z = rest := by
      simpa using Except.ok.inj heq
    obtain ⟨hlt, rfl⟩ := vector16_eq_ok.mp ⟨length, y, hlength, hname⟩
    exact ⟨hseen, hnonempty, hlt, rfl⟩
  · rintro ⟨hseen, hnonempty, hlt, rfl⟩
    obtain ⟨length, y, hlength, hname⟩ := vector16_eq_ok.mpr ⟨hlt, rfl⟩
    exact ⟨nameType, _, rfl, (), hseen, length, y, hlength, name, rest, hname, (), hnonempty, rfl⟩

/-- What one entry does: an entry of type 0 is the host name. -/
def ReadsName : ServerName → Option Bytes → Option Bytes → Prop :=
  Items.Reads ServerName.nameType 0 False fun entry canonical => Canonicalises entry.name canonical

theorem parseNames_nil : parseNames seenTypes host [] = .ok result ↔ result = host := by
  rw [parseNames, if_pos List.isEmpty_nil, Except.ok.injEq, eq_comm]

/-- One turn of the loop. -/
theorem parseNames_turn (hinput : input ≠ []) :
    parseNames seenTypes host input = .ok result ↔
      ∃ (entry : ServerName) (rest : Bytes) (host' : Option Bytes), entry.nameType ∉ seenTypes ∧
        input = entry.encode ++ rest ∧ ReadsName entry host host' ∧
        parseNames (entry.nameType :: seenTypes) host' rest = .ok result := by
  rw [parseNames, if_neg (by simpa using hinput)]
  constructor
  · intro h
    split at h
    · cases h
    · next nameType name rest hnext =>
      obtain ⟨hseen, hnonempty, hlt, rfl⟩ := nextName_eq_ok.mp hnext
      -- the bytes that were taken off are the encoding of one name
      let entry : ServerName := ⟨nameType, name, hnonempty, hlt⟩
      split at h
      · next htype =>
        split at h
        · cases h
        · next canonical hname =>
          have hreads : ReadsName entry host (some canonical) :=
            .inl ⟨htype, False.elim, canonical, hostName_eq_ok.mp hname, rfl⟩
          exact ⟨entry, rest, some canonical, hseen, rfl, hreads, h⟩
      · next htype => exact ⟨entry, rest, host, hseen, rfl, .inr ⟨htype, rfl⟩, h⟩
  · rintro ⟨entry, rest, host', hseen, rfl, hreads, hrest⟩
    -- conversely, the encoding is read back whole
    have hnext : nextName seenTypes (entry.encode ++ rest) = .ok (entry.nameType, entry.name, rest) :=
      nextName_eq_ok.mpr ⟨hseen, entry.nonempty, entry.length_lt, rfl⟩
    split
    · next e herror =>
      rw [hnext] at herror
      cases herror
    · next nameType name rest' hnext' =>
      rw [hnext] at hnext'
      obtain ⟨rfl, rfl, rfl⟩ : entry.nameType = nameType ∧ entry.name = name ∧ rest = rest' := by
        simpa using Except.ok.inj hnext'
      rcases hreads with ⟨htype, -, canonical, hcanonical, rfl⟩ | ⟨htype, rfl⟩
      · rw [if_pos htype, hostName_eq_ok.mpr hcanonical]
        exact hrest
      · rw [if_neg htype]
        exact hrest

theorem encode_name_ne_nil (entry : ServerName) : entry.encode ≠ [] := List.cons_ne_nil _ _

theorem loop_parseNames : Items.Loop ServerName.nameType ServerName.encode ReadsName
    (fun seen host input result => parseNames seen host input = .ok result) where
  encode_ne_nil := encode_name_ne_nil
  done _ _ _ := parseNames_nil
  turn _ _ _ _ hinput := parseNames_turn hinput

/-- The extension holds a server name list, and this is its host name. -/
theorem parseServerName_eq_ok {value canonical : Bytes} :
    parseServerName value = .ok canonical ↔ ∃ list : ServerNameList, list.encode = value ∧
      ∃ entry ∈ list.entries, entry.nameType = 0 ∧ Canonicalises entry.name canonical := by
  simp only [parseServerName, bind_eq_ok, ensure_eq_ok, Prod.exists, u16_eq_ok]
  constructor
  · rintro ⟨length, entries, ⟨hlt, rfl⟩, -, rfl, -, hpos, found, hnames, hfound⟩
    obtain ⟨items, rfl, hnodup, hfolds⟩ := loop_parseNames.run_iff.mp hnames
    have hcanonical : found = some canonical := by
      cases found with
      | none => cases hfound
      | some host => exact congrArg some (Except.ok.inj hfound)
    rw [hcanonical] at hfolds
    have hentry := (Items.folds_reads_iff hnodup).mp hfolds
    have hnonempty : items ≠ [] := by
      rintro rfl
      exact Nat.lt_irrefl 0 hpos
    exact ⟨⟨items, hnonempty, hnodup, hlt⟩, rfl, hentry⟩
  · rintro ⟨list, rfl, hentry⟩
    have hfolds : Items.Folds ReadsName list.entries none (some canonical) :=
      (Items.folds_reads_iff list.distinct).mpr hentry
    have hnames := loop_parseNames.run_iff.mpr ⟨list.entries, rfl, list.distinct, hfolds⟩
    obtain ⟨entry, hmem, -⟩ := hentry
    have hpos : 0 < (list.entries.flatMap ServerName.encode).length := by
      refine List.length_pos_iff.mpr fun hnil => ?_
      exact encode_name_ne_nil entry (List.flatMap_eq_nil_iff.mp hnil entry hmem)
    exact ⟨_, _, ⟨list.length_lt, rfl⟩, (), rfl, (), hpos, some canonical, hnames, rfl⟩

end names

/-! ## The extensions -/

section extensions

variable {seenExtensions : List Nat} {serverName result : Option Bytes} {input : Bytes}

theorem nextExtension_eq_ok {extensionType : Nat} {value rest : Bytes} :
    nextExtension seenExtensions input = .ok (extensionType, value, rest) ↔
      extensionType ∉ seenExtensions ∧ extensionType < 65536 ∧ value.length < 65536 ∧
        input = beBytes 2 extensionType ++ (vector16 value ++ rest) := by
  simp only [nextExtension, bind_eq_ok, ensure_eq_ok, Prod.exists]
  constructor
  · rintro ⟨t, x, ht, -, hseen, length, y, hlength, v, z, hvalue, heq⟩
    obtain ⟨rfl, rfl, rfl⟩ : t = extensionType ∧ v = value ∧ z = rest := by
      simpa using Except.ok.inj heq
    obtain ⟨htype, rfl⟩ := u16_eq_ok.mp ht
    obtain ⟨hlt, rfl⟩ := vector16_eq_ok.mp ⟨length, y, hlength, hvalue⟩
    exact ⟨hseen, htype, hlt, rfl⟩
  · rintro ⟨hseen, htype, hlt, rfl⟩
    obtain ⟨length, y, hlength, hvalue⟩ := vector16_eq_ok.mpr ⟨hlt, rfl⟩
    exact ⟨extensionType, _, u16_eq_ok.mpr ⟨htype, rfl⟩, (), hseen, length, y, hlength, value, rest,
      hvalue, rfl⟩

/-- What one extension does: that of type 0 has the server name. -/
def ReadsExtension : Extension → Option Bytes → Option Bytes → Prop :=
  Items.Reads Extension.extensionType 0 True fun extension name =>
    parseServerName extension.value = .ok name

theorem parseExtensions_nil :
    parseExtensions seenExtensions serverName [] = .ok result ↔ result = serverName := by
  rw [parseExtensions, if_pos List.isEmpty_nil, Except.ok.injEq, eq_comm]

/-- One turn of the loop. -/
theorem parseExtensions_turn (hinput : input ≠ []) :
    parseExtensions seenExtensions serverName input = .ok result ↔
      ∃ (extension : Extension) (rest : Bytes) (serverName' : Option Bytes),
        extension.extensionType ∉ seenExtensions ∧ input = extension.encode ++ rest ∧
        ReadsExtension extension serverName serverName' ∧
        parseExtensions (extension.extensionType :: seenExtensions) serverName' rest = .ok result := by
  rw [parseExtensions, if_neg (by simpa using hinput)]
  constructor
  · intro h
    split at h
    · cases h
    · next extensionType value rest hnext =>
      obtain ⟨hseen, htypelt, hlt, rfl⟩ := nextExtension_eq_ok.mp hnext
      -- the bytes that were taken off are the encoding of one extension
      let extension : Extension := ⟨extensionType, value, htypelt, hlt⟩
      have hencode : beBytes 2 extensionType ++ (vector16 value ++ rest) =
          extension.encode ++ rest := (List.append_assoc _ _ _).symm
      split at h
      · next htype =>
        split at h
        · cases h
        · next hnone =>
          split at h
          · cases h
          · next name hname =>
            rw [Bool.not_eq_true, Option.isSome_eq_false_iff, Option.isNone_iff_eq_none] at hnone
            have hreads : ReadsExtension extension serverName (some name) :=
              .inl ⟨htype, fun _ => hnone, name, hname, rfl⟩
            exact ⟨extension, rest, some name, hseen, hencode, hreads, h⟩
      · next htype => exact ⟨extension, rest, serverName, hseen, hencode, .inr ⟨htype, rfl⟩, h⟩
  · rintro ⟨extension, rest, serverName', hseen, rfl, hreads, hrest⟩
    -- conversely, the encoding is read back whole
    have hnext : nextExtension seenExtensions (extension.encode ++ rest) =
        .ok (extension.extensionType, extension.value, rest) :=
      nextExtension_eq_ok.mpr
        ⟨hseen, extension.type_lt, extension.length_lt, List.append_assoc _ _ _⟩
    split
    · next e herror =>
      rw [hnext] at herror
      cases herror
    · next extensionType value rest' hnext' =>
      rw [hnext] at hnext'
      obtain ⟨rfl, rfl, rfl⟩ : extension.extensionType = extensionType ∧
          extension.value = value ∧ rest = rest' := by
        simpa using Except.ok.inj hnext'
      rcases hreads with ⟨htype, hnone, name, hname, rfl⟩ | ⟨htype, rfl⟩
      · rw [if_pos htype, hnone trivial, if_neg (by simp), hname]
        exact hrest
      · rw [if_neg htype]
        exact hrest

theorem encode_extension_ne_nil (extension : Extension) : extension.encode ≠ [] := by
  intro h
  have hlength := congrArg List.length h
  rw [Extension.encode, List.length_append, length_beBytes] at hlength
  simp at hlength

theorem loop_parseExtensions : Items.Loop Extension.extensionType Extension.encode ReadsExtension
    (fun seen serverName input result => parseExtensions seen serverName input = .ok result) where
  encode_ne_nil := encode_extension_ne_nil
  done _ _ _ := parseExtensions_nil
  turn _ _ _ _ hinput := parseExtensions_turn hinput

end extensions

/-! ## The body -/

theorem beBytes_one (value : UInt8) : beBytes 1 value.toNat = [value] := by
  show [UInt8.ofNat (value.toNat / 256 ^ 0)] = [value]
  rw [Nat.pow_zero, Nat.div_one, UInt8.ofNat_toNat]

theorem vector8_eq {length : UInt8} {value : Bytes} (h : value.length = length.toNat) :
    vector8 value = length :: value := by
  rw [vector8, h, beBytes_one]
  rfl

/-- The extensions of a body, with the server name among them. -/
theorem parseExtensions_eq_ok {input host : Bytes} :
    parseExtensions [] none input = .ok (some host) ↔
      ∃ extensions : List Extension, input = extensions.flatMap Extension.encode ∧
        (extensions.map Extension.extensionType).Nodup ∧
        ∃ extension ∈ extensions, extension.extensionType = 0 ∧
          parseServerName extension.value = .ok host := by
  rw [loop_parseExtensions.run_iff]
  refine exists_congr fun extensions => and_congr_right fun _ => and_congr_right fun hnodup => ?_
  show Items.Folds ReadsExtension extensions none (some host) ↔ _
  exact Items.folds_reads_iff hnodup

/-- The body is taken apart field by field. -/
theorem parseClientHello_eq_ok {bytes host : Bytes} :
    parseClientHello bytes = .ok host ↔ ∃ body : Body, body.encode = bytes ∧ body.Requests host := by
  simp only [parseClientHello, bind_eq_ok, ensure_eq_ok, Prod.exists, take_eq_ok, u8_eq_ok,
    u16_eq_ok]
  constructor
  · rintro ⟨version, _, ⟨hversion, rfl⟩, random, _, ⟨hrandom, rfl⟩, sessionLen, _, rfl, -, hsession,
      sessionId, _, ⟨hsessionId, rfl⟩, cipherLen, _, ⟨hcipherLt, rfl⟩, -, hcipher, ciphers, _,
      ⟨rfl, rfl⟩, compressionLen, _, rfl, -, hcompression, compression, _, ⟨hcompressionLen, rfl⟩,
      extensionsLen, input, ⟨hextensionsLt, rfl⟩, -, rfl, extensions, rest, ⟨hlength, rfl⟩, found,
      hextensions, hfound⟩
    -- the extensions are all that is left
    obtain rfl : rest = [] := by
      rw [List.length_append] at hlength
      exact List.length_eq_zero_iff.mp (by omega)
    rw [List.append_nil] at hextensionsLt ⊢
    obtain rfl : found = some host := by
      cases found with
      | none => cases hfound
      | some name => exact congrArg some (Except.ok.inj hfound)
    obtain ⟨items, rfl, hnodup, extension, hmem, htype, hname⟩ := parseExtensions_eq_ok.mp hextensions
    rw [UInt8.le_iff_toNat_le] at hsession
    rw [UInt8.lt_iff_toNat_lt] at hcompression
    let body : Body :=
      { legacyVersion := version
        random := random
        sessionId := sessionId
        cipherSuites := ciphers
        compressionMethods := compression
        extensions := items
        version_length := hversion
        random_length := hrandom
        session_length := hsessionId ▸ hsession
        cipher_length := ⟨hcipher.1, hcipher.2, hcipherLt⟩
        compression_length := ⟨hcompressionLen ▸ hcompression, hcompressionLen ▸ compressionLen.toNat_lt⟩
        distinct := hnodup
        extensions_length := hextensionsLt }
    refine ⟨body, ?_, extension, hmem, htype, parseServerName_eq_ok.mp hname⟩
    show version ++ (random ++ (vector8 sessionId ++ (vector16 ciphers ++ (vector8 compression ++
      vector16 (items.flatMap Extension.encode))))) = _
    rw [vector8_eq hsessionId, vector8_eq hcompressionLen, vector16, vector16]
    simp only [List.cons_append, List.append_assoc]
  · rintro ⟨body, rfl, extension, hmem, htype, hname⟩
    have hextensions := parseExtensions_eq_ok.mpr
      ⟨body.extensions, rfl, body.distinct, extension, hmem, htype, parseServerName_eq_ok.mpr hname⟩
    have hsession := body.session_length
    have hcompression := body.compression_length
    have hsessionLen : (UInt8.ofNat body.sessionId.length).toNat = body.sessionId.length :=
      UInt8.toNat_ofNat_of_lt' (Nat.lt_of_le_of_lt hsession (by decide))
    have hcompressionLen :
        (UInt8.ofNat body.compressionMethods.length).toNat = body.compressionMethods.length :=
      UInt8.toNat_ofNat_of_lt' hcompression.2
    have hencode : body.encode = body.legacyVersion ++ (body.random ++
        (UInt8.ofNat body.sessionId.length :: (body.sessionId ++
        (beBytes 2 body.cipherSuites.length ++ (body.cipherSuites ++
        (UInt8.ofNat body.compressionMethods.length :: (body.compressionMethods ++
        (beBytes 2 (body.extensions.flatMap Extension.encode).length ++
          body.extensions.flatMap Extension.encode)))))))) := by
      rw [Body.encode, vector8_eq hsessionLen.symm, vector8_eq hcompressionLen.symm, vector16, vector16]
      simp only [List.cons_append, List.append_assoc]
    rw [hencode]
    refine ⟨_, _, ⟨body.version_length, rfl⟩, _, _, ⟨body.random_length, rfl⟩, _, _, rfl, (), ?_,
      _, _, ⟨hsessionLen.symm, rfl⟩, _, _, ⟨body.cipher_length.2.2, rfl⟩, (),
      ⟨body.cipher_length.1, body.cipher_length.2.1⟩, _, _, ⟨rfl, rfl⟩, _, _, rfl, (), ?_,
      _, _, ⟨hcompressionLen.symm, rfl⟩, _, _, ⟨body.extensions_length, rfl⟩, (), rfl, _, [],
      ⟨rfl, (List.append_nil _).symm⟩, some host, hextensions, rfl⟩
    · rw [UInt8.le_iff_toNat_le, hsessionLen]
      exact hsession
    · rw [UInt8.lt_iff_toNat_lt, hcompressionLen]
      exact hcompression.1

/-- **Exactness**: a byte string is accepted with a server name when it is the
    encoding of a body that asks for it, so no two readings of the same bytes ask
    for different names. -/
theorem parseClientHello_exact (bytes : Bytes) :
    (∀ host, parseClientHello bytes = .ok host ↔
      ∃ body : Body, body.encode = bytes ∧ body.Requests host) ∧
    ∀ (body body' : Body) (host host' : Bytes), body.encode = bytes → body'.encode = bytes →
      body.Requests host → body'.Requests host' → host = host' := by
  refine ⟨fun host => parseClientHello_eq_ok, ?_⟩
  intro body body' host host' hbody hbody' hhost hhost'
  have h := parseClientHello_eq_ok.mpr ⟨body, hbody, hhost⟩
  have h' := parseClientHello_eq_ok.mpr ⟨body', hbody', hhost'⟩
  exact Except.ok.inj (h.symm.trans h')

def shopName : ServerName := ⟨0, ascii "Shop.kr", by decide, by decide⟩

def shopNames : ServerNameList := ⟨[shopName], by decide, by decide, by decide⟩

/-- A ClientHello with one cipher suite that asks for `Shop.kr`. -/
def shopHello : Body where
  legacyVersion := [3, 3]
  random := List.replicate 32 7
  sessionId := []
  cipherSuites := [19, 1]
  compressionMethods := [0]
  extensions := [⟨43, [2, 3, 4], by decide, by decide⟩, ⟨0, shopNames.encode, by decide, by decide⟩]
  version_length := by decide
  random_length := by decide
  session_length := by decide
  cipher_length := by decide
  compression_length := by decide
  distinct := by decide
  extensions_length := by decide

theorem parseClientHello_exact_shopHello :
    parseClientHello shopHello.encode = .ok (ascii "shop.kr") ∧
      ∀ body : Body, ∀ host, body.encode = shopHello.encode → body.Requests host →
        host = ascii "shop.kr" := by
  have hcanonical : Canonicalises shopName.name (ascii "shop.kr") :=
    canonicalHostname_eq_ok.mp (by rfl)
  have hrequests : shopHello.Requests (ascii "shop.kr") :=
    ⟨_, List.mem_cons_of_mem _ List.mem_cons_self, rfl, shopNames, rfl, shopName,
      List.mem_cons_self, rfl, hcanonical⟩
  obtain ⟨hexact, hunique⟩ := parseClientHello_exact shopHello.encode
  exact ⟨(hexact _).mpr ⟨shopHello, rfl, hrequests⟩,
    fun body host hbody hhost => hunique body shopHello host _ hbody rfl hhost hrequests⟩

end ClientHello
