import Hangang.ClientHello.Parse
import Hangang.Framework.Arrivals
import Hangang.Framework.Framing

/-! # Reading a ClientHello

    `read_client_hello` reassembles the first handshake message from TLS records,
    with a limit on the bytes and on the number of records, and hands back the
    bytes it consumed.

    * **Server name**: what is returned depends on the handshake bytes only, not
      on their division into records or on how the stream arrives.
    * **Replay**: the consumed bytes are what the reader was advanced by. -/

open Bytes Except

namespace ClientHello

def maxRecordBytes : Nat := 16 * 1024

def maxHandshakeRecords : Nat := 256

/-- `ClientHello`. -/
structure Hello where
  serverName : Bytes
  consumed : Bytes
  deriving DecidableEq, Repr

/-! ## The reader -/

/-- `read_bounded`: the output with the bytes read, and the reader. -/
def readBounded (reader : Arrivals) (output : Bytes) (amount maxBytes : Nat) :
    Except String (Bytes × Arrivals) := do
  ensure (output.length + amount ≤ maxBytes) "ClientHello exceeds configured byte limit"
  match reader.readExact amount with
  | some (bytes, reader) => return (output ++ bytes, reader)
  | none => throw "read TLS ClientHello"

/-- The checks of a record header; its record length. -/
def recordLength (header : Bytes) : Except String Nat := do
  ensure (header[0]? = some 22) "TLS record before ClientHello is not a handshake"
  ensure (header[1]? = some 3 ∧ header[2]?.any (· ≤ 4)) "invalid TLS record version"
  let length := be16 (header.getD 3 0) (header.getD 4 0)
  ensure (1 ≤ length ∧ length ≤ maxRecordBytes) "invalid TLS handshake record length"
  return length

/-- The variables of the loop. -/
structure Progress where
  reader : Arrivals
  consumed : Bytes
  handshake : Bytes
  expectedHandshake : Option Nat
  deriving DecidableEq, Repr

/-- One record: what it consumes, its payload, and the reader. -/
def readRecord (reader : Arrivals) (consumed : Bytes) (maxBytes : Nat) :
    Except String (Bytes × Bytes × Arrivals) := do
  let headerStart := consumed.length
  let (consumed, reader) ← readBounded reader consumed 5 maxBytes
  let length ← recordLength (consumed.drop headerStart)
  let payloadStart := consumed.length
  let (consumed, reader) ← readBounded reader consumed length maxBytes
  return (consumed, consumed.drop payloadStart, reader)

/-- The length that the first four bytes of the handshake announce. -/
def announcedLength (handshake : Bytes) : Nat :=
  ((handshake.getD 1 0).toNat <<< 16 ||| (handshake.getD 2 0).toNat <<< 8 |||
    (handshake.getD 3 0).toNat) + 4

/-- `expected_handshake`, once it can be known. -/
def expect (maxBytes : Nat) (handshake : Bytes) (expectedHandshake : Option Nat) :
    Except String (Option Nat) :=
  if 4 ≤ handshake.length ∧ expectedHandshake.isNone then do
    ensure (handshake[0]? = some 1) "first TLS handshake is not ClientHello"
    let total := announcedLength handshake
    ensure (total ≤ maxBytes) "ClientHello exceeds configured byte limit"
    return some total
  else return expectedHandshake

/-- The loop, with the number of records it may still read. -/
def readRecords (maxBytes : Nat) : Nat → Progress → Except String (Hello × Arrivals)
  | 0, _ => .error "ClientHello exceeds 256 TLS records"
  | records + 1, p => do
    let (consumed, payload, reader) ← readRecord p.reader p.consumed maxBytes
    let handshake := p.handshake ++ payload
    let expectedHandshake ← expect maxBytes handshake p.expectedHandshake
    match expectedHandshake.filter (· ≤ handshake.length) with
    | some expected =>
      let serverName ← parseClientHello ((handshake.take expected).drop 4)
      return (⟨serverName, consumed⟩, reader)
    | none => readRecords maxBytes records ⟨reader, consumed, handshake, expectedHandshake⟩

/-- The result comes with the reader, which the caller goes on with. -/
def readClientHello (reader : Arrivals) (maxBytes : Nat) : Except String (Hello × Arrivals) := do
  ensure (0 < maxBytes) "ClientHello byte limit must be positive"
  readRecords maxBytes maxHandshakeRecords ⟨reader, [], [], none⟩

/-! ## What is consumed -/

variable {reader reader' : Arrivals} {output output' payload : Bytes} {amount maxBytes : Nat}

theorem readBounded_eq_ok (h : readBounded reader output amount maxBytes = .ok (output', reader')) :
    ∃ bytes, output' = output ++ bytes ∧ bytes.length = amount ∧
      reader.flatten = bytes ++ reader'.flatten ∧ output'.length ≤ maxBytes := by
  obtain ⟨_, hcap, h⟩ := bind_eq_ok.mp h
  have hcap := ensure_eq_ok.mp hcap
  split at h
  · next bytes reader₁ hread =>
    cases h
    obtain ⟨hflat, hlength⟩ := Arrivals.readExact_eq_some hread
    refine ⟨bytes, rfl, hlength, hflat, ?_⟩
    rw [List.length_append, hlength]
    exact hcap
  · cases h

theorem readBounded_of_readExact {bytes : Bytes} (hcap : output.length + amount ≤ maxBytes)
    (hread : reader.readExact amount = some (bytes, reader')) :
    readBounded reader output amount maxBytes = .ok (output ++ bytes, reader') := by
  rw [readBounded, ensure_of hcap, hread]
  rfl

theorem readRecord_consumed (h : readRecord reader output maxBytes = .ok (output', payload, reader')) :
    ∃ bytes, output' = output ++ bytes ∧ reader.flatten = bytes ++ reader'.flatten ∧
      output'.length ≤ maxBytes := by
  obtain ⟨⟨consumed₁, reader₁⟩, hheader, h⟩ := bind_eq_ok.mp h
  obtain ⟨length, -, h⟩ := bind_eq_ok.mp h
  obtain ⟨⟨consumed₂, reader₂⟩, hpayload, h⟩ := bind_eq_ok.mp h
  cases h
  obtain ⟨header, rfl, -, hflat₁, -⟩ := readBounded_eq_ok hheader
  obtain ⟨body, rfl, -, hflat₂, hcap⟩ := readBounded_eq_ok hpayload
  refine ⟨header ++ body, List.append_assoc _ _ _, ?_, hcap⟩
  rw [hflat₁, hflat₂, List.append_assoc]

variable {p : Progress} {later handshake : Bytes}

/-- What the loop adds to the consumed bytes is what it takes from the stream. -/
theorem readRecords_consumed {records : Nat} {hello : Hello}
    (h : readRecords maxBytes records p = .ok (hello, reader')) :
    ∃ bytes, hello.consumed = p.consumed ++ bytes ∧
      p.reader.flatten = bytes ++ reader'.flatten ∧ hello.consumed.length ≤ maxBytes := by
  induction records generalizing p with
  | zero => cases h
  | succ records ih =>
    obtain ⟨⟨consumed, payload, reader⟩, hrecord, h⟩ := bind_eq_ok.mp h
    obtain ⟨expectedHandshake, -, h⟩ := bind_eq_ok.mp h
    obtain ⟨bytes, hconsumed, hflat, hcap⟩ := readRecord_consumed hrecord
    split at h
    · obtain ⟨serverName, -, h⟩ := bind_eq_ok.mp h
      cases h
      exact ⟨bytes, hconsumed, hflat, hcap⟩
    · obtain ⟨more, hmore, hflat', hcap'⟩ := ih h
      refine ⟨bytes ++ more, ?_, ?_, hcap'⟩
      · rw [hmore, hconsumed, List.append_assoc]
      · rw [hflat, hflat', List.append_assoc]

/-! ## Records -/

/-- A handshake record. -/
structure Record where
  minor : UInt8
  payload : Bytes
  minor_le : minor ≤ 4
  payload_ne : 1 ≤ payload.length
  payload_le : payload.length ≤ maxRecordBytes

def Record.header (record : Record) : Bytes := [22, 3, record.minor] ++ beBytes 2 record.payload.length

def Record.encode (record : Record) : Bytes := record.header ++ record.payload

/-- The records on the wire. -/
def wire (records : List Record) : Bytes := records.flatMap Record.encode

/-- The handshake bytes that the records carry. -/
def payloads (records : List Record) : Bytes := records.flatMap Record.payload

theorem be16_beBytes {n : Nat} (hn : n < 65536) :
    be16 ((beBytes 2 n).getD 0 0) ((beBytes 2 n).getD 1 0) = n := by
  show (UInt8.ofNat (n / 256 ^ 1)).toNat * 256 + (UInt8.ofNat (n / 256 ^ 0)).toNat = n
  rw [UInt8.toNat_ofNat', UInt8.toNat_ofNat']
  omega

theorem Record.recordLength_header (record : Record) :
    recordLength record.header = .ok record.payload.length := by
  have hlength : be16 (record.header.getD 3 0) (record.header.getD 4 0) = record.payload.length :=
    be16_beBytes (Nat.lt_of_le_of_lt record.payload_le (by decide))
  have hminor : record.header[2]?.any (· ≤ 4) := by
    show decide (record.minor ≤ 4) = true
    exact decide_eq_true record.minor_le
  have hkind : record.header[0]? = some 22 := rfl
  have hmajor : record.header[1]? = some 3 := rfl
  rw [recordLength, ensure_of hkind, ok_bind, ensure_of ⟨hmajor, hminor⟩, ok_bind]
  dsimp only
  rw [hlength, ensure_of ⟨record.payload_ne, record.payload_le⟩]
  rfl

/-- A record that is there and fits is read. -/
theorem exists_readRecord {record : Record} {consumed : Bytes}
    (hreader : reader.flatten = record.encode ++ later)
    (hcap : consumed.length + record.encode.length ≤ maxBytes) :
    ∃ reader', readRecord reader consumed maxBytes =
      .ok (consumed ++ record.encode, record.payload, reader') ∧ reader'.flatten = later := by
  rw [Record.encode, List.append_assoc] at hreader
  rw [Record.encode, List.length_append] at hcap
  obtain ⟨reader₁, hheader, hreader₁⟩ := Arrivals.exists_readExact hreader
  obtain ⟨reader₂, hpayload, hreader₂⟩ := Arrivals.exists_readExact hreader₁
  have hlength : record.header.length = 5 := rfl
  have hfirst : readBounded reader consumed 5 maxBytes =
      .ok (consumed ++ record.header, reader₁) :=
    readBounded_of_readExact (by omega) hheader
  have hsecond : readBounded reader₁ (consumed ++ record.header) record.payload.length maxBytes =
      .ok (consumed ++ record.header ++ record.payload, reader₂) := by
    apply readBounded_of_readExact _ hpayload
    rw [List.length_append]
    omega
  refine ⟨reader₂, ?_, hreader₂⟩
  rw [readRecord, hfirst, ok_bind]
  dsimp only
  rw [List.drop_left, record.recordLength_header, ok_bind, hsecond, ok_bind]
  dsimp only
  rw [List.drop_left, Record.encode, List.append_assoc]
  rfl

/-- Where no record begins, none is read. -/
theorem readRecord_eq_error (consumed : Bytes) (maxBytes : Nat)
    (hreader : reader.flatten.head? ≠ some 22) :
    ∃ e, readRecord reader consumed maxBytes = .error e := by
  cases hrecord : readRecord reader consumed maxBytes with
  | error e => exact ⟨e, rfl⟩
  | ok result =>
    obtain ⟨⟨consumed₁, reader₁⟩, hheader, h⟩ := bind_eq_ok.mp hrecord
    obtain ⟨length, hlength, -⟩ := bind_eq_ok.mp h
    obtain ⟨header, rfl, hfive, hflat, -⟩ := readBounded_eq_ok hheader
    obtain ⟨_, hkind, -⟩ := bind_eq_ok.mp hlength
    have hkind := ensure_eq_ok.mp hkind
    rw [List.drop_left] at hkind
    rw [hflat, List.head?_append] at hreader
    rw [List.head?_eq_getElem?, hkind] at hreader
    exact absurd rfl hreader

/-! ## The server name of a handshake -/

/-- The server name that is returned for the handshake bytes as a whole. -/
def serverNameOf (maxBytes : Nat) (handshake : Bytes) : Option Bytes :=
  match expect maxBytes handshake none with
  | .ok expectedHandshake =>
    (expectedHandshake.filter (· ≤ handshake.length)).bind fun expected =>
      (parseClientHello ((handshake.take expected).drop 4)).toOption
  | .error _ => none

theorem expect_of_short (h : handshake.length < 4) :
    expect maxBytes handshake none = .ok none := by
  rw [expect, if_neg fun hlong => Nat.not_le.mpr h hlong.1]
  rfl

theorem expect_some (handshake : Bytes) (expected : Nat) :
    expect maxBytes handshake (some expected) = .ok (some expected) := by
  rw [expect, if_neg fun hnone => Bool.noConfusion hnone.2]
  rfl

/-- Once four bytes are there, later ones make no difference. -/
theorem expect_append (h : 4 ≤ handshake.length) (later : Bytes) :
    expect maxBytes (handshake ++ later) none = expect maxBytes handshake none := by
  match handshake, h with
  | a :: b :: c :: d :: rest, _ => rfl

/-- The loop has read the handshake bytes and has not found its end. -/
structure Incomplete (maxBytes : Nat) (p : Progress) : Prop where
  expected : expect maxBytes p.handshake none = .ok p.expectedHandshake
  short : ∀ expected, p.expectedHandshake = some expected → p.handshake.length < expected

theorem Incomplete.expect_next (h : Incomplete maxBytes p) (payload : Bytes) :
    expect maxBytes (p.handshake ++ payload) p.expectedHandshake =
      expect maxBytes (p.handshake ++ payload) none := by
  cases hexpected : p.expectedHandshake with
  | none => rfl
  | some expected =>
    have hknown := h.expected
    rw [hexpected] at hknown
    have hlong : 4 ≤ p.handshake.length := by
      by_contra hshort
      rw [expect_of_short (by omega)] at hknown
      cases hknown
    rw [expect_some, expect_append hlong, hknown]

/-- What is decided about the first bytes is decided about all. -/
theorem serverNameOf_append_of_error {e : String} (h : expect maxBytes handshake none = .error e)
    (later : Bytes) :
    serverNameOf maxBytes (handshake ++ later) = none := by
  have hlong : 4 ≤ handshake.length := by
    by_contra hshort
    rw [expect_of_short (by omega)] at h
    cases h
  rw [serverNameOf, expect_append hlong, h]

theorem serverNameOf_append_of_complete {expected : Nat}
    (h : expect maxBytes handshake none = .ok (some expected)) (hle : expected ≤ handshake.length)
    (later : Bytes) :
    serverNameOf maxBytes (handshake ++ later) =
      (parseClientHello ((handshake.take expected).drop 4)).toOption := by
  have hlong : 4 ≤ handshake.length := by
    by_contra hshort
    rw [expect_of_short (by omega)] at h
    cases h
  have hle' : expected ≤ (handshake ++ later).length := by
    rw [List.length_append]
    omega
  rw [serverNameOf, expect_append hlong, h]
  dsimp only
  rw [Option.filter_some, decide_eq_true hle', if_pos rfl, Option.bind_some,
    List.take_append_of_le_length hle]

theorem serverNameOf_of_incomplete (h : Incomplete maxBytes p) :
    serverNameOf maxBytes p.handshake = none := by
  rw [serverNameOf, h.expected]
  dsimp only
  cases hexpected : p.expectedHandshake with
  | none => rfl
  | some expected =>
    have hshort := h.short expected hexpected
    rw [Option.filter_some, decide_eq_false (Nat.not_le.mpr hshort)]
    rfl

/-- The server name of a result. -/
def serverName? (result : Except String (Hello × Arrivals)) : Option Bytes :=
  result.toOption.map fun (hello, _) => hello.serverName

/-- **Reassembly.** What the loop still returns is decided by the handshake bytes
    read so far and those of the records to come. -/
theorem serverName?_readRecords {records : List Record} {n : Nat} (hrecords : records.length ≤ n)
    (hincomplete : Incomplete maxBytes p) (hreader : p.reader.flatten = wire records ++ later)
    (hlater : later.head? ≠ some 22) (hcap : p.consumed.length + (wire records).length ≤ maxBytes) :
    serverName? (readRecords maxBytes n p) =
      serverNameOf maxBytes (p.handshake ++ payloads records) := by
  -- on the records to come; the progress has what was read of the earlier ones
  induction records generalizing n p with
  | nil =>
    rw [payloads, List.flatMap_nil, List.append_nil, serverNameOf_of_incomplete hincomplete]
    cases n with
    -- the loop ends, or finds no further record in what comes later
    | zero => rfl
    | succ n =>
      have hnone : p.reader.flatten.head? ≠ some 22 := by
        rw [hreader]
        exact hlater
      obtain ⟨e, he⟩ := readRecord_eq_error p.consumed maxBytes hnone
      rw [readRecords, he]
      rfl
  | cons record records ih =>
    cases n with
    | zero => exact absurd hrecords (by simp)
    | succ n =>
      have hwire : wire (record :: records) = record.encode ++ wire records := rfl
      have hpayloads : payloads (record :: records) = record.payload ++ payloads records := rfl
      rw [hwire, List.append_assoc] at hreader
      rw [hwire, List.length_append] at hcap
      have hfits : p.consumed.length + record.encode.length ≤ maxBytes := by omega
      obtain ⟨reader', hrecord, hreader'⟩ := exists_readRecord hreader hfits
      rw [readRecords, hrecord, ok_bind, hpayloads, ← List.append_assoc]
      dsimp only
      rw [hincomplete.expect_next]
      -- the record ends the handshake with an error, completes it, or leaves it open
      cases hexpect : expect maxBytes (p.handshake ++ record.payload) none with
      | error e =>
        rw [serverNameOf_append_of_error hexpect]
        rfl
      | ok expectedHandshake =>
        rw [ok_bind]
        split
        · next expected hfilter =>
          obtain ⟨hsome, hle⟩ := Option.filter_eq_some_iff.mp hfilter
          rw [hsome] at hexpect
          rw [serverNameOf_append_of_complete hexpect (of_decide_eq_true hle)]
          cases parseClientHello
              (((p.handshake ++ record.payload).take expected).drop 4) with
          | error e => rfl
          | ok name => rfl
        · next hfilter =>
          apply ih
          · exact Nat.le_of_succ_le_succ hrecords
          · refine ⟨hexpect, fun expected hsome => ?_⟩
            have hnot := Option.filter_eq_none_iff.mp hfilter expected hsome
            show (p.handshake ++ record.payload).length < expected
            exact Nat.not_le.mp fun hle => hnot (decide_eq_true hle)
          · exact hreader'
          · show (p.consumed ++ record.encode).length + (wire records).length ≤ maxBytes
            rw [List.length_append]
            omega

/-- The server name of a stream that begins with the records. -/
theorem serverName?_readClientHello {records : List Record}
    (hrecords : records.length ≤ maxHandshakeRecords) (hcap : (wire records).length ≤ maxBytes)
    (hlater : later.head? ≠ some 22) (hreader : reader.flatten = wire records ++ later) :
    serverName? (readClientHello reader maxBytes) =
      if 0 < maxBytes then serverNameOf maxBytes (payloads records) else none := by
  rw [readClientHello]
  split
  · next hpos =>
    rw [ensure_of hpos, ok_bind]
    have hstart : Incomplete maxBytes ⟨reader, [], [], none⟩ :=
      ⟨expect_of_short (Nat.zero_lt_succ 3), fun _ h => absurd h (Option.some_ne_none _).symm⟩
    have hlength : ([] : Bytes).length + (wire records).length ≤ maxBytes := by
      rw [List.length_nil, Nat.zero_add]
      exact hcap
    exact serverName?_readRecords hrecords hstart hreader hlater hlength
  · next hzero =>
    rw [ensure_of_not hzero]
    rfl

/-- **Record fragmentation independence.** Two streams that carry the same handshake
    bytes in handshake records, each at most 256 of them and within the limit, and
    that do not go on with another handshake record: however they are cut and
    however they arrive, both are refused, or both give the same server name. And
    what is consumed of any stream is a prefix of it, within the limit, that leaves
    the reader at the rest. -/
theorem readClientHello_fragmentation (maxBytes : Nat) :
    (∀ (a b : List Record) (laterA laterB : Bytes) (readerA readerB : Arrivals),
      payloads a = payloads b →
      a.length ≤ maxHandshakeRecords → b.length ≤ maxHandshakeRecords →
      (wire a).length ≤ maxBytes → (wire b).length ≤ maxBytes →
      laterA.head? ≠ some 22 → laterB.head? ≠ some 22 →
      readerA.flatten = wire a ++ laterA → readerB.flatten = wire b ++ laterB →
      serverName? (readClientHello readerA maxBytes) =
        serverName? (readClientHello readerB maxBytes)) ∧
    (∀ (reader reader' : Arrivals) (hello : Hello),
      readClientHello reader maxBytes = .ok (hello, reader') →
      reader.flatten = hello.consumed ++ reader'.flatten ∧ hello.consumed.length ≤ maxBytes) := by
  constructor
  · intro a b laterA laterB readerA readerB hsame hlenA hlenB hcapA hcapB hlaterA hlaterB hA hB
    rw [serverName?_readClientHello hlenA hcapA hlaterA hA,
      serverName?_readClientHello hlenB hcapB hlaterB hB, hsame]
  · intro reader reader' hello h
    obtain ⟨_, -, h⟩ := bind_eq_ok.mp h
    obtain ⟨bytes, hconsumed, hflat, hcap⟩ := readRecords_consumed h
    have hconsumed : hello.consumed = bytes := hconsumed
    rw [hconsumed] at hcap ⊢
    exact ⟨hflat, hcap⟩

/-- A ClientHello for the host name. -/
def helloFor (host : Bytes) : Bytes :=
  let sni := beBytes 2 (host.length + 3) ++ [0] ++ beBytes 2 host.length ++ host
  let extensions := beBytes 2 0 ++ beBytes 2 sni.length ++ sni
  let body := [3, 3] ++ List.replicate 32 7 ++ [0] ++ beBytes 2 2 ++ beBytes 2 0x1301 ++ [1, 0] ++
    beBytes 2 extensions.length ++ extensions
  [1] ++ beBytes 3 body.length ++ body

/-- The same ClientHello in one record and in two, the second after 11 bytes, and
    arriving byte by byte with an application record behind it. -/
theorem readClientHello_fragmentation_split :
    let handshake := helloFor (ascii "API.Example.COM")
    let one : Record := ⟨1, handshake, by decide, by decide, by decide⟩
    let first : Record := ⟨1, handshake.take 11, by decide, by decide, by decide⟩
    let second : Record := ⟨3, handshake.drop 11, by decide, by decide, by decide⟩
    serverName? (readClientHello [one.encode] 1024) = some (ascii "api.example.com") ∧
    serverName? (readClientHello
      ((wire [first, second] ++ [23, 3, 3]).map fun b => [b]) 1024) =
        some (ascii "api.example.com") := by
  intro handshake one first second
  have hone : serverName? (readClientHello [one.encode] 1024) = some (ascii "api.example.com") := by
    decide +kernel
  refine ⟨hone, ?_⟩
  rw [← hone]
  apply (readClientHello_fragmentation 1024).1 [first, second] [one] [23, 3, 3] []
  all_goals decide +kernel

end ClientHello
