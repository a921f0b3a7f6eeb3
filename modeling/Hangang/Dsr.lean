import Hangang.Framework.Except
import Hangang.Framework.Table
import Hangang.Framework.Utf8
import Mathlib.Data.Finset.Dedup

/-! # Direct Routing Services

    `dsr`: the services of the kernel's virtual server that `hangang-dsr` adds and removes, each
    one a protocol, an address and a port. Everything is done by runs of `ipvsadm`, one command
    at a time, and everything that is known about the table is read from the text of its listing.

    * **Configuration**, with the checks of `validate`.
    * **Listings**: what is read from a text, and when a text lists a table.
    * **Commands**: each one happens as a whole or fails, and what it reports is what happened.
      Which ones fail is not known beforehand.
    * **Ownership**: a failed `apply` takes back what it created and nothing else, and `cleanup`
      removes services only when all of them are listed as they are configured. -/

open Except (ensure)

namespace Dsr

abbrev Text : Type := List Char

/-! ## Configuration -/

abbrev Ipv4Addr : Type := UInt8 × UInt8 × UInt8 × UInt8

namespace Ipv4Addr

def isUnspecified (a : Ipv4Addr) : Bool := a == (0, 0, 0, 0)

def isLoopback (a : Ipv4Addr) : Bool := a.1 == 127

def isMulticast (a : Ipv4Addr) : Bool := 224 ≤ a.1 && a.1 ≤ 239

def isBroadcast (a : Ipv4Addr) : Bool := a == (255, 255, 255, 255)

end Ipv4Addr

inductive Protocol where
  | tcp
  | udp
  deriving DecidableEq, Repr

def Protocol.name : Protocol → Text
  | .tcp => "TCP".toList
  | .udp => "UDP".toList

structure Backend where
  address : Ipv4Addr
  port : UInt16
  weight : UInt32

structure Service where
  vip : Ipv4Addr
  port : UInt16
  protocol : Protocol
  scheduler : Text
  backends : List Backend

structure Config where
  services : List Service

def maxServices : Nat := 64

def maxBackends : Nat := 256

def schedulers : List Text :=
  ["rr", "wrr", "lc", "wlc", "sh", "dh", "nq", "sed"].map String.toList

inductive ConfigError where
  /-- "services must not be empty" -/
  | noServices
  /-- "too many services" -/
  | services
  /-- "service port must not be zero" -/
  | port
  /-- "VIP must be a non-loopback, non-unspecified IPv4 address" -/
  | vip
  /-- "VIP must not be multicast or broadcast" -/
  | vipMulticast
  /-- "scheduler must be 1..32 bytes" -/
  | schedulerLength
  /-- "unsupported IPVS scheduler" -/
  | scheduler
  /-- "duplicate protocol/VIP/port service" -/
  | duplicateService
  /-- "service must have a backend" -/
  | noBackend
  /-- "too many backends" -/
  | backends
  /-- "backend port must not be zero" -/
  | backendPort
  /-- "backend must be a non-loopback, non-unspecified IPv4 address" -/
  | backend
  /-- "backend must not be multicast or broadcast" -/
  | backendMulticast
  /-- "direct-routing backend port must equal the virtual service port" -/
  | otherPort
  /-- "backend must not be the virtual service address" -/
  | backendVip
  /-- "backend weight is too large" -/
  | weight
  /-- "duplicate backend address/port" -/
  | duplicateBackend
  /-- "too many backends total" -/
  | total
  deriving DecidableEq, Repr

/-- One backend, after those that were seen. -/
def validateBackend (service : Service) (seen : List (Ipv4Addr × UInt16)) (backend : Backend) :
    Except ConfigError (List (Ipv4Addr × UInt16)) := do
  ensure (backend.port ≠ 0) .backendPort
  ensure (backend.address.isUnspecified = false ∧ backend.address.isLoopback = false) .backend
  ensure (backend.address.isMulticast = false ∧ backend.address.isBroadcast = false)
    .backendMulticast
  ensure (backend.port = service.port) .otherPort
  ensure (backend.address ≠ service.vip) .backendVip
  ensure (backend.weight.toNat ≤ 1000000) .weight
  ensure ((backend.address, backend.port) ∉ seen) .duplicateBackend
  return (backend.address, backend.port) :: seen

/-- One service, after those that were seen, with the number of backends so far. -/
def validateService (read : List (Protocol × Ipv4Addr × UInt16) × Nat) (service : Service) :
    Except ConfigError (List (Protocol × Ipv4Addr × UInt16) × Nat) := do
  ensure (service.port ≠ 0) .port
  ensure (service.vip.isUnspecified = false ∧ service.vip.isLoopback = false) .vip
  ensure (service.vip.isMulticast = false ∧ service.vip.isBroadcast = false) .vipMulticast
  ensure (service.scheduler ≠ [] ∧ (service.scheduler.flatMap String.utf8EncodeChar).length ≤ 32)
    .schedulerLength
  ensure (service.scheduler ∈ schedulers) .scheduler
  ensure ((service.protocol, service.vip, service.port) ∉ read.1) .duplicateService
  ensure (service.backends ≠ []) .noBackend
  ensure (service.backends.length ≤ maxBackends) .backends
  let _ ← service.backends.foldlM (validateBackend service) []
  return ((service.protocol, service.vip, service.port) :: read.1,
    read.2 + service.backends.length)

def Config.validate (config : Config) : Except ConfigError Unit := do
  ensure (config.services ≠ []) .noServices
  ensure (config.services.length ≤ maxServices) .services
  let read ← config.services.foldlM validateService ([], 0)
  ensure (read.2 ≤ maxBackends) .total

/-! ## Listings -/

/-- `to_string` of a number. -/
def decimal (n : Nat) : Text := Nat.toDigits 10 n

def dotted (a : Ipv4Addr) : Text :=
  decimal a.1.toNat ++ ['.'] ++ decimal a.2.1.toNat ++ ['.'] ++ decimal a.2.2.1.toNat ++ ['.'] ++
    decimal a.2.2.2.toNat

def endpoint (address : Ipv4Addr) (port : UInt16) : Text :=
  dotted address ++ [':'] ++ decimal port.toNat

def newline : Char := Char.ofNat 10

def carriageReturn : Char := Char.ofNat 13

def tab : Char := Char.ofNat 9

def linesFrom (line : Text) : Text → List Text
  | [] => if line = [] then [] else [line]
  | c :: rest =>
    if c = newline then
      (if line.getLast? = some carriageReturn then line.dropLast else line) :: linesFrom [] rest
    else linesFrom (line ++ [c]) rest

/-- `str::lines`. -/
def lines (text : Text) : List Text := linesFrom [] text

def wordsFrom (word : Text) : Text → List Text
  | [] => if word = [] then [] else [word]
  | c :: rest =>
    if Utf8.isWhitespace c = true then
      if word = [] then wordsFrom [] rest else word :: wordsFrom [] rest
    else wordsFrom (word ++ [c]) rest

/-- `str::split_whitespace`. -/
def words (line : Text) : List Text := wordsFrom [] line

def digit (c : Char) : Option Nat := if c.isDigit = true then some (c.toNat - 48) else none

/-- `str::parse::<u32>`. -/
def parseU32 (text : Text) : Option Nat := do
  let digits := if text.head? = some '+' then text.tail else text
  if digits = [] then none
  else
    let value ← digits.foldlM (fun n c => (digit c).map (10 * n + ·)) 0
    if value < 2 ^ 32 then some value else none

/-- The place of a service in the table: the protocol, and the address with the port. -/
abbrev Key : Type := Text × Text

def Service.key (service : Service) : Key :=
  (service.protocol.name, endpoint service.vip service.port)

/-- The line is the header of the service. -/
def isHeader (service : Service) (line : Text) : Bool :=
  (words line)[0]? == some service.key.1 && (words line)[1]? == some service.key.2

def arrow : Text := ['-', '>']

/-- `service_exists_text`. -/
def serviceExistsText (service : Service) (listing : Text) : Bool :=
  (lines listing).any (isHeader service)

structure Destination where
  address : Text
  method : Text
  weight : Nat
  deriving DecidableEq

structure Scan where
  found : Bool
  schedulerOk : Bool
  destinations : List Destination
  deriving DecidableEq

/-- The fields of a destination; `none` is the early return. -/
def readDestination (line : Text) : Option Destination :=
  match words line with
  | _ :: address :: method :: weight :: _ => (parseU32 weight).map (⟨address, method, ·⟩)
  | _ => none

/-- The loop of `service_matches_text`. -/
def scanLines (service : Service) (scan : Scan) : List Text → Option Scan
  | [] => some scan
  | line :: rest =>
    if isHeader service line = true then
      let schedulerOk := (words line).length == 3 && (words line)[2]? == some service.scheduler
      scanLines service ⟨true, schedulerOk, scan.destinations⟩ rest
    else if scan.found = true ∧ arrow <+: line.dropWhile Utf8.isWhitespace then
      (readDestination line).bind fun destination =>
        scanLines service { scan with destinations := scan.destinations ++ [destination] } rest
    else if scan.found = true ∧ line.head? ≠ some ' ' ∧ line.head? ≠ some tab then some scan
    else scanLines service scan rest

def expected (service : Service) : List Destination :=
  service.backends.map fun backend =>
    ⟨endpoint backend.address backend.port, "Route".toList, backend.weight.toNat⟩

/-- `service_matches_text`. -/
def serviceMatchesText (service : Service) (listing : Text) : Bool :=
  match scanLines service ⟨false, false, []⟩ (lines listing) with
  | none => false
  | some scan =>
    scan.found && scan.schedulerOk &&
      decide (scan.destinations.toFinset = (expected service).toFinset)

/-! ## Commands -/

/-- A service in the table. -/
structure Virtual where
  scheduler : Text
  flags : List Text
  destinations : List Destination
  deriving DecidableEq

abbrev IpvsTable : Type := Table Key Virtual

/-- The runs of `ipvsadm`; `-t` and `-u` are part of the key. -/
inductive Command where
  /-- `-Ln --exact` -/
  | list
  /-- `-A` -/
  | add (key : Key) (scheduler : Text)
  /-- `-a .. -r .. -g -w ..` -/
  | addDestination (key : Key) (destination : Destination)
  /-- `-D` -/
  | delete (key : Key)
  deriving DecidableEq

/-- What a command does to a table; `none` where it fails. -/
def Command.effect (table : IpvsTable) : Command → Option IpvsTable
  | .list => some table
  | .add key scheduler =>
    if (table.lookup key).isSome = true then none
    else some (table.insert key ⟨scheduler, [], []⟩)
  | .addDestination key destination =>
    (table.lookup key).bind fun service =>
      if destination.address ∈ service.destinations.map (·.address) then none
      else some (table.insert key
        { service with destinations := service.destinations ++ [destination] })
  | .delete key => if (table.lookup key).isSome = true then some (table.erase key) else none

/-- The machine: whether it has IPVS, which of the commands fail although they could succeed, and
    the text of a listing, unless that fails. -/
structure Machine where
  capable : Bool
  fails : Nat → Bool
  listing : Nat → IpvsTable → Option Text

/-- The table, and the commands that were run with what they reported. -/
structure World where
  table : IpvsTable
  log : List (Command × Bool)

inductive Error where
  | config (error : ConfigError)
  /-- "IPVS direct routing requires Linux", and what else `capability` asks. -/
  | capability
  /-- "execute ipvsadm", or "ipvsadm list failed: .." -/
  | list
  /-- "owned service .. already exists; inspect it and run cleanup explicitly before reapplying" -/
  | alreadyExists (service : Text)
  /-- "could not add owned service ..: .." -/
  | add (service : Text)
  /-- "could not add owned backend ..: .." -/
  | addBackend (backend : Text)
  /-- "could not remove owned service ..: .." -/
  | removeOwned (service : Text)
  /-- "could not remove newly created service ..: .." -/
  | removeCreated (service : Text)
  /-- "refusing cleanup of .. because the existing service does not exactly match the configured
      ownership shape" -/
  | refused (service : Text)
  deriving DecidableEq

section commands

variable (machine : Machine)

/-- A command that changes the table. That it cannot be started is a failure, too. -/
def exec (command : Command) (w : World) : Bool × World :=
  let done := if machine.fails w.log.length = true then none else command.effect w.table
  (done.isSome, ⟨done.getD w.table, w.log ++ [(command, done.isSome)]⟩)

def list (w : World) : Option Text × World :=
  let text := machine.listing w.log.length w.table
  (text, ⟨w.table, w.log ++ [(.list, text.isSome)]⟩)

/-- A question that the text of a listing answers. -/
def ask (read : Text → Bool) (w : World) : Except Error Bool × World :=
  ((list machine w).1.elim (.error .list) fun text => .ok (read text), (list machine w).2)

def serviceExists (service : Service) (w : World) : Except Error Bool × World :=
  ask machine (serviceExistsText service) w

def serviceMatches (service : Service) (w : World) : Except Error Bool × World :=
  ask machine (serviceMatchesText service) w

/-- `delete_service` and `delete_service_force`, which differ in their error. -/
def deleteWith (failed : Text → Error) (service : Service) (w : World) :
    Except Error Unit × World :=
  match serviceExists machine service w with
  | (.error error, w) => (.error error, w)
  | (.ok false, w) => (.ok (), w)
  | (.ok true, w) =>
    match exec machine (.delete service.key) w with
    | (true, w) => (.ok (), w)
    | (false, w) => (.error (failed service.key.2), w)

def deleteService (service : Service) (w : World) : Except Error Unit × World :=
  deleteWith machine .removeOwned service w

def deleteServiceForce (service : Service) (w : World) : Except Error Unit × World :=
  deleteWith machine .removeCreated service w

/-! ## Apply -/

def addBackends (service : Service) : List Backend → World → Except Error Unit × World
  | [], w => (.ok (), w)
  | backend :: rest, w =>
    let address := endpoint backend.address backend.port
    match exec machine (.addDestination service.key
      ⟨address, "Route".toList, backend.weight.toNat⟩) w with
    | (true, w) => addBackends service rest w
    | (false, w) => (.error (.addBackend address), w)

/-- The closure of `apply`, with the services that are added after it. -/
def addService (service : Service) (added : List Service) (w : World) :
    Except Error Unit × List Service × World :=
  match serviceExists machine service w with
  | (.error error, w) => (.error error, added, w)
  | (.ok true, w) => (.error (.alreadyExists service.key.2), added, w)
  | (.ok false, w) =>
    match exec machine (.add service.key service.scheduler) w with
    | (false, w) => (.error (.add service.key.2), added, w)
    | (true, w) =>
      let (result, w) := addBackends machine service service.backends w
      (result, added ++ [service], w)

def rollback : List Service → World → List Error × World
  | [], w => ([], w)
  | created :: rest, w =>
    match deleteServiceForce machine created w with
    | (.ok (), w) => rollback rest w
    | (.error error, w) =>
      let (errors, w) := rollback rest w
      (error :: errors, w)

/-- Why `apply` failed, and the errors of the rollback. -/
structure Failure where
  error : Error
  rollbackErrors : List Error
  deriving DecidableEq

def applyServices : List Service → List Service → World → Except Failure Unit × World
  | [], _, w => (.ok (), w)
  | service :: rest, added, w =>
    match addService machine service added w with
    | (.ok (), added, w) => applyServices rest added w
    | (.error error, added, w) =>
      let (errors, w) := rollback machine added w
      (.error ⟨error, errors⟩, w)

/-- `apply`. -/
def apply (config : Config) (w : World) : Except Failure Unit × World :=
  match config.validate with
  | .error error => (.error ⟨.config error, []⟩, w)
  | .ok () =>
    if machine.capable = true then applyServices machine config.services [] w
    else (.error ⟨.capability, []⟩, w)

/-! ## Cleanup -/

def checkServices : List Service → World → Except Error Unit × World
  | [], w => (.ok (), w)
  | service :: rest, w =>
    match serviceMatches machine service w with
    | (.error error, w) => (.error error, w)
    | (.ok false, w) => (.error (.refused service.key.2), w)
    | (.ok true, w) => checkServices rest w

def deleteServices : List Service → World → Except Error Unit × World
  | [], w => (.ok (), w)
  | service :: rest, w =>
    match deleteService machine service w with
    | (.error error, w) => (.error error, w)
    | (.ok (), w) => deleteServices rest w

/-- `cleanup`. -/
def cleanup (config : Config) (w : World) : Except Error Unit × World :=
  match config.validate with
  | .error error => (.error (.config error), w)
  | .ok () =>
    if machine.capable = true then
      match checkServices machine config.services w with
      | (.error error, w) => (.error error, w)
      | (.ok (), w) => deleteServices machine config.services w
    else (.error .capability, w)

end commands

/-! ## What a listing says -/

/-- A line that lists a destination: an arrow, and the columns of the destination first. -/
structure DestinationLine (destination : Destination) (line : Text) : Prop where
  fields : ∃ weight rest,
    words line = arrow :: destination.address :: destination.method :: weight :: rest ∧
      parseU32 weight = some destination.weight
  arrow : arrow <+: line.dropWhile Utf8.isWhitespace

/-- A line that lists a service: it is not indented. -/
structure HeaderLine (key : Key) (service : Virtual) (line : Text) : Prop where
  fields : words line = key.1 :: key.2 :: service.scheduler :: service.flags
  flush : line.head? ≠ some ' ' ∧ line.head? ≠ some tab
  plain : ¬ arrow <+: line.dropWhile Utf8.isWhitespace

/-- A service with its destinations, in some order. -/
def Block (entry : Key × Virtual) (block : List Text) : Prop :=
  ∃ header destinations listed, block = header :: listed ∧ HeaderLine entry.1 entry.2 header ∧
    destinations.Perm entry.2.destinations ∧ List.Forall₂ DestinationLine destinations listed

/-- The text lists the table: behind lines that are no service's, every service once, in some
    order. -/
structure Prints (text : Text) (table : IpvsTable) : Prop where
  listed : ∃ preamble entries blocks, lines text = preamble ++ blocks.flatten ∧
    (∀ line ∈ preamble, ∀ protocol : Protocol, (words line)[0]? ≠ some protocol.name) ∧
    List.Forall₂ Block entries blocks ∧ (entries.map Prod.fst).Nodup ∧
    ∀ key service, (key, service) ∈ entries ↔ table.lookup key = some service

section listings

variable {service : Service} {line text : Text} {rest : List Text} {table : IpvsTable}

theorem isHeader_iff {first second : Text} {others : List Text}
    (h : words line = first :: second :: others) :
    isHeader service line = true ↔ service.key = (first, second) := by
  rw [isHeader, h, Bool.and_eq_true, beq_iff_eq, beq_iff_eq, Prod.ext_iff]
  show some first = some _ ∧ some second = some _ ↔ _
  rw [Option.some.injEq, Option.some.injEq]
  exact and_congr eq_comm eq_comm

theorem HeaderLine.isHeader_iff {key : Key} {listed : Virtual} (h : HeaderLine key listed line) :
    isHeader service line = true ↔ service.key = key := Dsr.isHeader_iff h.fields

theorem name_ne_arrow (protocol : Protocol) : protocol.name ≠ arrow := by
  cases protocol <;> decide

theorem DestinationLine.isHeader {destination : Destination}
    (h : DestinationLine destination line) : ¬ isHeader service line = true := by
  obtain ⟨weight, others, hwords, -⟩ := h.fields
  rw [Dsr.isHeader_iff hwords]
  exact fun hkey => name_ne_arrow service.protocol (congrArg Prod.fst hkey)

theorem not_isHeader_of_preamble
    (h : ∀ protocol : Protocol, (words line)[0]? ≠ some protocol.name) :
    ¬ isHeader service line = true := by
  intro hheader
  rw [isHeader, Bool.and_eq_true, beq_iff_eq] at hheader
  exact h service.protocol hheader.1

/-- What is before the service is passed over. -/
theorem scanLines_skip {skipped : List Text} {scan : Scan} (hfound : scan.found = false)
    (h : ∀ line ∈ skipped, ¬ isHeader service line = true) :
    scanLines service scan (skipped ++ rest) = scanLines service scan rest := by
  induction skipped with
  | nil => rfl
  | cons line skipped ih =>
    have hline := h line List.mem_cons_self
    have hnot : ¬ scan.found = true := by simp [hfound]
    rw [List.cons_append, scanLines, if_neg hline, if_neg fun hboth => hnot hboth.1,
      if_neg fun hboth => hnot hboth.1]
    exact ih fun l hl => h l (List.mem_cons_of_mem line hl)

theorem readDestination_eq {destination : Destination} (h : DestinationLine destination line) :
    readDestination line = some destination := by
  obtain ⟨weight, others, hwords, hweight⟩ := h.fields
  rw [readDestination, hwords]
  simp [hweight]

theorem scanLines_destinations {destinations : List Destination} {listed : List Text}
    (h : List.Forall₂ DestinationLine destinations listed) (ok : Bool) (before : List Destination) :
    scanLines service ⟨true, ok, before⟩ (listed ++ rest) =
      scanLines service ⟨true, ok, before ++ destinations⟩ rest := by
  induction h generalizing before with
  | nil => rw [List.append_nil, List.nil_append]
  | @cons destination line destinations listed hline _ ih =>
    rw [List.cons_append, scanLines, if_neg hline.isHeader, if_pos ⟨rfl, hline.arrow⟩,
      readDestination_eq hline, Option.bind_some, ih, List.append_assoc, List.singleton_append]

/-- The next service ends the loop. -/
theorem scanLines_next {key : Key} {listed : Virtual} (h : HeaderLine key listed line)
    (hkey : service.key ≠ key) (ok : Bool) (destinations : List Destination) :
    scanLines service ⟨true, ok, destinations⟩ (line :: rest) = some ⟨true, ok, destinations⟩ := by
  rw [scanLines, if_neg fun hheader => hkey (h.isHeader_iff.mp hheader),
    if_neg fun hboth => h.plain hboth.2, if_pos ⟨rfl, h.flush⟩]

theorem scanLines_after {entries : List (Key × Virtual)} {blocks : List (List Text)}
    (h : List.Forall₂ Block entries blocks) (hkey : service.key ∉ entries.map Prod.fst) (ok : Bool)
    (destinations : List Destination) :
    scanLines service ⟨true, ok, destinations⟩ blocks.flatten = some ⟨true, ok, destinations⟩ := by
  cases h with
  | nil => rfl
  | @cons entry block entries blocks hblock _ =>
    obtain ⟨header, _, listed, rfl, hheader, -, -⟩ := hblock
    rw [List.flatten_cons, List.cons_append]
    refine scanLines_next hheader (fun heq => hkey ?_) ok destinations
    rw [heq]
    exact List.mem_cons_self

theorem Block.not_isHeader {entry : Key × Virtual} {block : List Text} (h : Block entry block)
    (hkey : service.key ≠ entry.1) : ∀ line ∈ block, ¬ isHeader service line = true := by
  obtain ⟨header, destinations, listed, rfl, hheader, -, hlisted⟩ := h
  intro line hline
  rcases List.mem_cons.mp hline with rfl | hlater
  · exact fun hservice => hkey (hheader.isHeader_iff.mp hservice)
  · clear hline hheader
    induction hlisted with
    | nil => exact absurd hlater List.not_mem_nil
    | cons hdestination _ ih =>
      rcases List.mem_cons.mp hlater with rfl | hlater
      · exact hdestination.isHeader
      · exact ih hlater

/-- The destinations that the loop finds are those of the service, if it is listed. -/
theorem scanLines_entries {entries : List (Key × Virtual)} {blocks : List (List Text)}
    (h : List.Forall₂ Block entries blocks) (hnodup : (entries.map Prod.fst).Nodup) :
    (service.key ∉ entries.map Prod.fst →
        scanLines service ⟨false, false, []⟩ blocks.flatten = some ⟨false, false, []⟩) ∧
      ∀ listed, (service.key, listed) ∈ entries → ∃ destinations,
        destinations.Perm listed.destinations ∧
          scanLines service ⟨false, false, []⟩ blocks.flatten =
            some ⟨true, listed.flags.isEmpty && listed.scheduler == service.scheduler,
              destinations⟩ := by
  induction h with
  | nil => exact ⟨fun _ => rfl, fun listed hmem => absurd hmem List.not_mem_nil⟩
  | @cons entry block entries blocks hblock hblocks ih =>
    rw [List.map_cons, List.nodup_cons] at hnodup
    rw [List.flatten_cons]
    by_cases hkey : service.key = entry.1
    · refine ⟨fun hnot => absurd (hkey ▸ List.mem_cons_self) hnot, fun listed hmem => ?_⟩
      have hentry : entry = (service.key, listed) := by
        rcases List.mem_cons.mp hmem with heq | hmem
        · exact heq.symm
        · exact absurd (List.mem_map_of_mem hmem) (hkey ▸ hnodup.1)
      subst hentry
      obtain ⟨header, destinations, lines, rfl, hheader, hperm, hlines⟩ := hblock
      refine ⟨destinations, hperm, ?_⟩
      rw [List.cons_append, scanLines, if_pos (hheader.isHeader_iff.mpr rfl)]
      dsimp only
      rw [scanLines_destinations hlines, scanLines_after hblocks hnodup.1, List.nil_append,
        hheader.fields]
      cases listed.flags with
      | nil => rfl
      | cons flag flags => simp
    · rw [scanLines_skip rfl (hblock.not_isHeader hkey)]
      obtain ⟨hnone, hsome⟩ := ih hnodup.2
      refine ⟨fun hnot => hnone fun hmem => hnot (List.mem_cons_of_mem _ hmem),
        fun listed hmem => hsome listed ?_⟩
      rcases List.mem_cons.mp hmem with heq | hmem
      · exact absurd (congrArg Prod.fst heq) hkey
      · exact hmem

/-- The service is in the table as it is configured: the scheduler and nothing behind it, and the
    destinations of its backends, by direct routing, with their weights. -/
def Owned (service : Service) (table : IpvsTable) : Prop :=
  ∃ listed, table.lookup service.key = some listed ∧ listed.flags = [] ∧
    listed.scheduler = service.scheduler ∧
    ∀ destination, destination ∈ listed.destinations ↔ destination ∈ expected service

theorem serviceMatchesText_iff (h : Prints text table) :
    serviceMatchesText service text = true ↔ Owned service table := by
  obtain ⟨preamble, entries, blocks, hlines, hpreamble, hblocks, hnodup, htable⟩ := h.listed
  have hscan : scanLines service ⟨false, false, []⟩ (lines text) =
      scanLines service ⟨false, false, []⟩ blocks.flatten := by
    rw [hlines]
    exact scanLines_skip rfl fun line hline => not_isHeader_of_preamble (hpreamble line hline)
  obtain ⟨hnone, hsome⟩ := @scanLines_entries service entries blocks hblocks hnodup
  unfold serviceMatchesText Owned
  rw [hscan]
  cases hlookup : table.lookup service.key with
  | none =>
    have hnot : service.key ∉ entries.map Prod.fst := by
      intro hmem
      obtain ⟨⟨key, listed⟩, hentry, hkey⟩ := List.mem_map.mp hmem
      have hkey : key = service.key := hkey
      subst hkey
      cases hlookup.symm.trans ((htable _ listed).mp hentry)
    rw [hnone hnot]
    refine iff_of_false (fun h => (by cases h)) ?_
    rintro ⟨listed, hlisted, -⟩
    cases hlisted
  | some listed =>
    obtain ⟨destinations, hperm, hfound⟩ := hsome listed ((htable _ listed).mpr hlookup)
    have hset : destinations.toFinset = (expected service).toFinset ↔
        ∀ destination, destination ∈ listed.destinations ↔ destination ∈ expected service := by
      rw [Finset.ext_iff]
      simp only [List.mem_toFinset, hperm.mem_iff]
    rw [hfound]
    simp only [Bool.true_and, Bool.and_eq_true, List.isEmpty_iff, beq_iff_eq, decide_eq_true_eq,
      hset, Option.some.injEq, exists_eq_left', and_assoc]

/-- The header of a service is found among the blocks when the service is listed. -/
theorem exists_header_iff {entries : List (Key × Virtual)} {blocks : List (List Text)}
    (h : List.Forall₂ Block entries blocks) :
    (∃ line ∈ blocks.flatten, isHeader service line = true) ↔
      ∃ listed, (service.key, listed) ∈ entries := by
  induction h with
  | nil => simp
  | @cons entry block entries blocks hblock _ ih =>
    rw [List.flatten_cons]
    constructor
    · rintro ⟨line, hline, hheader⟩
      by_cases hkey : service.key = entry.1
      · exact ⟨entry.2, by rw [hkey]; exact List.mem_cons_self⟩
      · rcases List.mem_append.mp hline with hline | hline
        · exact absurd hheader (hblock.not_isHeader hkey line hline)
        · obtain ⟨listed, hmem⟩ := ih.mp ⟨line, hline, hheader⟩
          exact ⟨listed, List.mem_cons_of_mem _ hmem⟩
    · rintro ⟨listed, hmem⟩
      rcases List.mem_cons.mp hmem with heq | hmem
      · obtain ⟨header, destinations, lines, rfl, hheader, -, -⟩ := hblock
        exact ⟨header, List.mem_append_left _ List.mem_cons_self,
          hheader.isHeader_iff.mpr (congrArg Prod.fst heq)⟩
      · obtain ⟨line, hline, hheader⟩ := ih.mpr ⟨listed, hmem⟩
        exact ⟨line, List.mem_append_right _ hline, hheader⟩

theorem serviceExistsText_eq (h : Prints text table) :
    serviceExistsText service text = (table.lookup service.key).isSome := by
  obtain ⟨preamble, entries, blocks, hlines, hpreamble, hblocks, -, htable⟩ := h.listed
  have hnone : preamble.any (isHeader service) = false := by
    rw [List.any_eq_false]
    exact fun line hline => not_isHeader_of_preamble (hpreamble line hline)
  rw [Bool.eq_iff_iff, serviceExistsText, hlines, List.any_append, hnone, Bool.false_or,
    List.any_eq_true, exists_header_iff hblocks, Option.isSome_iff_exists]
  exact exists_congr fun listed => htable _ listed

end listings

/-! ## What a command does -/

section runs

/-- Whatever a listing reports is the table. -/
def Machine.Faithful (machine : Machine) : Prop :=
  ∀ n table text, machine.listing n table = some text → Prints text table

variable {machine : Machine} {service : Service}

/-- Behind the log of `w`, only commands that satisfy `P` were run. -/
def Ran (P : Command → Prop) (w w' : World) : Prop :=
  ∃ commands, w'.log = w.log ++ commands ∧ ∀ entry ∈ commands, P entry.1

theorem Ran.refl (P : Command → Prop) (w : World) : Ran P w w :=
  ⟨[], (List.append_nil _).symm, fun _ hentry => absurd hentry List.not_mem_nil⟩

variable {P : Command → Prop} {w w' initial : World} {result : Except Error Unit}
  {added services : List Service}

theorem Ran.trans {w'' : World} (h : Ran P w w') (h' : Ran P w' w'') :
    Ran P w w'' := by
  obtain ⟨commands, hlog, hall⟩ := h
  obtain ⟨commands', hlog', hall'⟩ := h'
  refine ⟨commands ++ commands', by rw [hlog', hlog, List.append_assoc], fun entry hentry => ?_⟩
  rcases List.mem_append.mp hentry with hentry | hentry
  · exact hall entry hentry
  · exact hall' entry hentry

theorem Ran.mono {Q : Command → Prop} (h : Ran P w w') (hPQ : ∀ c, P c → Q c) :
    Ran Q w w' := by
  obtain ⟨commands, hlog, hall⟩ := h
  exact ⟨commands, hlog, fun entry hentry => hPQ _ (hall entry hentry)⟩

/-- What was logged before is still there. -/
theorem Ran.subset (h : Ran P w w') {entry : Command × Bool} (hentry : entry ∈ w.log) :
    entry ∈ w'.log := by
  obtain ⟨commands, hlog, -⟩ := h
  exact hlog ▸ List.mem_append_left _ hentry

theorem Ran.mem (h : Ran P w w') {entry : Command × Bool} (hentry : entry ∈ w'.log) :
    entry ∈ w.log ∨ P entry.1 := by
  obtain ⟨commands, hlog, hall⟩ := h
  rw [hlog] at hentry
  exact (List.mem_append.mp hentry).imp_right (hall entry)

/-- The table is the same but for one service. -/
def Agrees (key : Key) (table table' : IpvsTable) : Prop :=
  ∀ other, other ≠ key → table'.lookup other = table.lookup other

theorem exec_ran (machine : Machine) (command : Command) (w : World) :
    Ran (· = command) w (exec machine command w).2 :=
  ⟨[(command, _)], rfl, fun _ hentry => congrArg Prod.fst (List.mem_singleton.mp hentry)⟩

/-- A command that reports a failure has done nothing. -/
theorem exec_failed {command : Command} (h : exec machine command w = (false, w')) :
    w'.table = w.table := by
  obtain ⟨hdone, rfl⟩ := Prod.mk.inj h
  rw [Option.isSome_eq_false_iff, Option.isNone_iff_eq_none] at hdone
  show Option.getD _ w.table = w.table
  rw [hdone]
  rfl

/-- A command that reports its success has done it, and is logged with that. -/
theorem exec_done {command : Command} (h : exec machine command w = (true, w')) :
    command.effect w.table = some w'.table ∧ (command, true) ∈ w'.log := by
  obtain ⟨hdone, rfl⟩ := Prod.mk.inj h
  obtain ⟨table, htable⟩ := Option.isSome_iff_exists.mp hdone
  have heffect : command.effect w.table = some table := by
    split at htable
    · cases htable
    · exact htable
  constructor
  · show _ = some (Option.getD _ w.table)
    rw [htable, heffect]
    rfl
  · show _ ∈ w.log ++ [(command, _)]
    rw [htable]
    exact List.mem_append_right _ List.mem_cons_self

/-- A question changes nothing, and its answer is read from a text that lists the table. -/
theorem ask_spec (hfaithful : machine.Faithful) {read : Text → Bool} {answer : Except Error Bool}
    (h : ask machine read w = (answer, w')) :
    w'.table = w.table ∧ Ran (· = .list) w w' ∧
      ∀ b, answer = .ok b → ∃ text, Prints text w.table ∧ b = read text := by
  obtain ⟨hanswer, rfl⟩ := Prod.mk.inj h
  refine ⟨rfl, ⟨[(.list, _)], rfl, fun _ hentry => ?_⟩, fun b hb => ?_⟩
  · exact congrArg Prod.fst (List.mem_singleton.mp hentry)
  · dsimp only [list] at hanswer
    rw [hb] at hanswer
    cases htext : machine.listing w.log.length w.table with
    | none =>
      rw [htext] at hanswer
      cases hanswer
    | some text =>
      rw [htext] at hanswer
      exact ⟨text, hfaithful _ _ _ htext, (Except.ok.inj hanswer).symm⟩

theorem serviceExists_spec (hfaithful : machine.Faithful) {answer : Except Error Bool}
    (h : serviceExists machine service w = (answer, w')) :
    w'.table = w.table ∧ Ran (· = .list) w w' ∧
      ∀ b, answer = .ok b → b = (w.table.lookup service.key).isSome := by
  obtain ⟨htable, hran, hanswer⟩ := ask_spec hfaithful h
  refine ⟨htable, hran, fun b hb => ?_⟩
  obtain ⟨text, hprints, rfl⟩ := hanswer b hb
  exact serviceExistsText_eq hprints

/-- Removing a service is nothing but removing that service. -/
theorem deleteWith_spec (hfaithful : machine.Faithful) {failed : Text → Error}
    (h : deleteWith machine failed service w = (result, w')) :
    Agrees service.key w.table w'.table ∧
      Ran (fun command => command = .list ∨ command = .delete service.key) w w' ∧
      (result = .ok () → w'.table.lookup service.key = none) := by
  unfold deleteWith at h
  split at h
  · next error mid hexists =>
    obtain ⟨htable, hran, -⟩ := serviceExists_spec hfaithful hexists
    obtain ⟨rfl, rfl⟩ := Prod.mk.inj h
    exact ⟨fun key _ => by rw [htable], hran.mono fun _ => .inl, fun hok => by cases hok⟩
  · next mid hexists =>
    obtain ⟨htable, hran, hanswer⟩ := serviceExists_spec hfaithful hexists
    obtain ⟨rfl, rfl⟩ := Prod.mk.inj h
    refine ⟨fun key _ => by rw [htable], hran.mono fun _ => .inl, fun _ => ?_⟩
    rw [htable, ← Option.isNone_iff_eq_none, ← Option.isSome_eq_false_iff]
    exact (hanswer false rfl).symm
  · next mid hexists =>
    obtain ⟨htable, hran, -⟩ := serviceExists_spec hfaithful hexists
    have hran' : Ran (fun command => command = .list ∨ command = .delete service.key) w
        (exec machine (.delete service.key) mid).2 :=
      (hran.mono fun _ => .inl).trans ((exec_ran _ _ _).mono fun _ => .inr)
    split at h
    · next later hexec =>
      obtain ⟨rfl, rfl⟩ := Prod.mk.inj h
      rw [hexec] at hran'
      obtain ⟨heffect, -⟩ := exec_done hexec
      obtain ⟨-, herase⟩ := Option.ite_none_right_eq_some.mp heffect
      have herase := Option.some.inj herase
      refine ⟨fun key hkey => ?_, hran', fun _ => ?_⟩
      · rw [← herase, AList.lookup_erase_ne hkey, htable]
      · rw [← herase, AList.lookup_erase]
    · next later hexec =>
      obtain ⟨rfl, rfl⟩ := Prod.mk.inj h
      rw [hexec] at hran'
      exact ⟨fun key _ => by rw [exec_failed hexec, htable], hran', fun hok => by cases hok⟩

/-- The commands that delete no service. -/
inductive Keeps : Command → Prop
  | list : Keeps .list
  | add (key : Key) (scheduler : Text) : Keeps (.add key scheduler)
  | addDestination (key : Key) (destination : Destination) : Keeps (.addDestination key destination)

/-- Only the destinations of the service change. -/
theorem addBackends_spec {backends : List Backend}
    (h : addBackends machine service backends w = (result, w')) :
    Agrees service.key w.table w'.table ∧ Ran Keeps w w' := by
  induction backends generalizing w with
  | nil =>
    obtain ⟨rfl, rfl⟩ := Prod.mk.inj h
    exact ⟨fun _ _ => rfl, .refl _ _⟩
  | cons backend rest ih =>
    rw [addBackends] at h
    have hran := exec_ran machine (.addDestination service.key
      ⟨endpoint backend.address backend.port, "Route".toList, backend.weight.toNat⟩) w
    split at h
    · next mid hexec =>
      rw [hexec] at hran
      obtain ⟨hagrees, hrest⟩ := ih h
      refine ⟨fun key hkey => ?_, .trans (hran.mono fun _ hc => hc ▸ .addDestination _ _) hrest⟩
      obtain ⟨heffect, -⟩ := exec_done hexec
      obtain ⟨listed, -, hinsert⟩ := Option.bind_eq_some_iff.mp heffect
      obtain ⟨-, hinsert⟩ := Option.ite_none_left_eq_some.mp hinsert
      rw [hagrees key hkey, ← Option.some.inj hinsert, AList.lookup_insert_ne hkey]
    · next mid hexec =>
      obtain ⟨rfl, rfl⟩ := Prod.mk.inj h
      rw [hexec] at hran
      exact ⟨fun key _ => by rw [exec_failed hexec], hran.mono fun _ hc => hc ▸ .addDestination _ _⟩

/-- What `apply` has created so far was not there before, and everything else is as it was. -/
structure Created (initial : World) (added : List Service) (w : World) : Prop where
  others : ∀ key, key ∉ added.map Service.key → w.table.lookup key = initial.table.lookup key
  absent : ∀ key ∈ added.map Service.key, initial.table.lookup key = none
  logged : ∀ key ∈ added.map Service.key, ∃ scheduler, (.add key scheduler, true) ∈ w.log
  ran : Ran Keeps initial w

theorem created_start (w : World) : Created w [] w where
  others _ _ := rfl
  absent _ hkey := absurd hkey List.not_mem_nil
  logged _ hkey := absurd hkey List.not_mem_nil
  ran := .refl _ _

/-- A command that is no deletion and leaves the table alone. -/
theorem Created.same (h : Created initial added w) (htable : w'.table = w.table)
    (hran : Ran Keeps w w') :
    Created initial added w' where
  others key hkey := htable ▸ h.others key hkey
  absent := h.absent
  logged key hkey := (h.logged key hkey).imp fun _ hmem => hran.subset hmem
  ran := h.ran.trans hran

theorem Created.addService (hfaithful : machine.Faithful) {added' : List Service}
    (h : Created initial added w)
    (hadd : addService machine service added w = (result, added', w')) :
    Created initial added' w' := by
  have hlist : ∀ mid, Ran (· = Command.list) w mid → Ran Keeps w mid :=
    fun mid hran => hran.mono fun _ hc => hc ▸ .list
  unfold Dsr.addService at hadd
  split at hadd
  · next error mid hexists =>
    obtain ⟨htable, hran, -⟩ := serviceExists_spec hfaithful hexists
    obtain ⟨-, rfl, rfl⟩ := hadd
    exact h.same htable (hlist _ hran)
  · next mid hexists =>
    obtain ⟨htable, hran, -⟩ := serviceExists_spec hfaithful hexists
    obtain ⟨-, rfl, rfl⟩ := hadd
    exact h.same htable (hlist _ hran)
  · next mid hexists =>
    obtain ⟨htable, hran, hanswer⟩ := serviceExists_spec hfaithful hexists
    have hmid : Created initial added mid := h.same htable (hlist _ hran)
    have hkeeps : Ran Keeps mid (exec machine (.add service.key service.scheduler) mid).2 :=
      (exec_ran _ _ _).mono fun _ hc => hc ▸ .add _ _
    split at hadd
    · next later hfailed =>
      obtain ⟨-, rfl, rfl⟩ := hadd
      rw [hfailed] at hkeeps
      exact hmid.same (exec_failed hfailed) hkeeps
    · next later hdone =>
      obtain ⟨heffect, hlogged⟩ := exec_done hdone
      obtain ⟨hnot, hinsert⟩ := Option.ite_none_left_eq_some.mp heffect
      have hinsert := Option.some.inj hinsert
      rw [hdone] at hkeeps
      obtain ⟨hagrees, hrest⟩ := addBackends_spec (Prod.mk.eta :
        ((addBackends machine service service.backends later).1,
          (addBackends machine service service.backends later).2) = _).symm
      obtain ⟨-, rfl, rfl⟩ := hadd
      have hran' := hkeeps.trans hrest
      have hnone : mid.table.lookup service.key = none := Option.not_isSome_iff_eq_none.mp hnot
      refine ⟨fun key hkey => ?_, fun key hkey => ?_, fun key hkey => ?_, hmid.ran.trans hran'⟩
      · rw [List.map_append, List.mem_append, not_or] at hkey
        have hne : key ≠ service.key := fun heq => hkey.2 (heq ▸ List.mem_cons_self)
        rw [hagrees key hne, ← hinsert, AList.lookup_insert_ne hne, hmid.others key hkey.1]
      · rw [List.map_append, List.mem_append] at hkey
        by_cases hold : key ∈ added.map Service.key
        · exact h.absent key hold
        · obtain rfl : key = service.key := List.mem_singleton.mp (hkey.resolve_left hold)
          rw [← hmid.others _ hold, hnone]
      · rw [List.map_append, List.mem_append] at hkey
        rcases hkey with hkey | hkey
        · exact (hmid.logged key hkey).imp fun _ hmem => hran'.subset hmem
        · rw [List.mem_singleton.mp hkey]
          exact ⟨service.scheduler, hrest.subset hlogged⟩

theorem checkServices_spec (hfaithful : machine.Faithful)
    (h : checkServices machine services w = (result, w')) :
    w'.table = w.table ∧ Ran (· = .list) w w' ∧
      (result = .ok () → ∀ service ∈ services, Owned service w.table) := by
  induction services generalizing w with
  | nil =>
    obtain ⟨rfl, rfl⟩ := Prod.mk.inj h
    exact ⟨rfl, .refl _ _, fun _ service hservice => absurd hservice List.not_mem_nil⟩
  | cons first rest ih =>
    rw [checkServices] at h
    split at h
    · next error mid hmatches =>
      obtain ⟨htable, hran, -⟩ := ask_spec hfaithful hmatches
      obtain ⟨rfl, rfl⟩ := Prod.mk.inj h
      exact ⟨htable, hran, fun hok => by cases hok⟩
    · next mid hmatches =>
      obtain ⟨htable, hran, -⟩ := ask_spec hfaithful hmatches
      obtain ⟨rfl, rfl⟩ := Prod.mk.inj h
      exact ⟨htable, hran, fun hok => by cases hok⟩
    · next mid hmatches =>
      obtain ⟨htable, hran, hanswer⟩ := ask_spec hfaithful hmatches
      obtain ⟨htable', hran', howned⟩ := ih h
      refine ⟨htable'.trans htable, hran.trans hran', fun hok service hservice => ?_⟩
      rcases List.mem_cons.mp hservice with rfl | hservice
      · obtain ⟨text, hprints, hmatch⟩ := hanswer true rfl
        exact (serviceMatchesText_iff hprints).mp hmatch.symm
      · exact htable ▸ howned hok service hservice

/-- The services are in the table, each with its scheduler and its backends in order. -/
def Complete (services : List Service) (w : World) : Prop :=
  ∀ service ∈ services, w.table.lookup service.key =
    some ⟨service.scheduler, [], expected service⟩

theorem addBackends_done {backends : List Backend} {listed : Virtual}
    (h : addBackends machine service backends w = (.ok (), w'))
    (hlisted : w.table.lookup service.key = some listed) :
    w'.table.lookup service.key = some { listed with
      destinations := listed.destinations ++ expected { service with backends } } := by
  induction backends generalizing w listed with
  | nil =>
    obtain ⟨-, rfl⟩ := Prod.mk.inj h
    rw [hlisted, expected, List.map_nil, List.append_nil]
  | cons backend rest ih =>
    rw [addBackends] at h
    split at h
    · next mid hexec =>
      obtain ⟨found, hfound, hinsert⟩ := Option.bind_eq_some_iff.mp (exec_done hexec).1
      obtain rfl := Option.some.inj (hlisted.symm.trans hfound)
      obtain ⟨-, hinsert⟩ := Option.ite_none_left_eq_some.mp hinsert
      rw [ih h (by rw [← Option.some.inj hinsert, AList.lookup_insert])]
      simp [expected]
    · cases h

/-- What was complete stays complete, because a service is not added over another one. -/
theorem Complete.addService {added' : List Service} (h : Complete added w)
    (hfaithful : machine.Faithful)
    (hadd : addService machine service added w = (.ok (), added', w')) :
    added' = added ++ [service] ∧ Complete added' w' := by
  unfold Dsr.addService at hadd
  split at hadd
  · cases hadd
  · cases hadd
  · next mid hexists =>
    have htable := (serviceExists_spec hfaithful hexists).1
    split at hadd
    · cases hadd
    · next later hdone =>
      obtain ⟨hnot, hinsert⟩ := Option.ite_none_left_eq_some.mp (exec_done hdone).1
      have hinsert := Option.some.inj hinsert
      rw [htable] at hnot hinsert
      rcases hbackends : addBackends machine service service.backends later with ⟨result, last⟩
      rw [hbackends] at hadd
      obtain ⟨rfl, rfl, rfl⟩ : result = .ok () ∧ added ++ [service] = added' ∧ last = w' := by
        simpa using hadd
      refine ⟨rfl, fun other hother => ?_⟩
      rcases List.mem_append.mp hother with hother | hother
      · have hne : other.key ≠ service.key := fun heq => hnot (by rw [← heq, h other hother]; rfl)
        rw [(addBackends_spec hbackends).1 _ hne, ← hinsert, AList.lookup_insert_ne hne,
          h other hother]
      · rw [List.mem_singleton.mp hother]
        exact addBackends_done hbackends (by rw [← hinsert, AList.lookup_insert])

theorem applyServices_done (hfaithful : machine.Faithful) (hcreated : Created initial added w)
    (hcomplete : Complete added w) (h : applyServices machine services added w = (.ok (), w')) :
    Created initial (added ++ services) w' ∧ Complete (added ++ services) w' := by
  induction services generalizing added w with
  | nil =>
    obtain ⟨-, rfl⟩ := Prod.mk.inj h
    rw [List.append_nil]
    exact ⟨hcreated, hcomplete⟩
  | cons service rest ih =>
    rw [applyServices] at h
    split at h
    · next added' mid hadd =>
      obtain ⟨rfl, hcomplete'⟩ := hcomplete.addService hfaithful hadd
      rw [List.append_cons]
      exact ih (hcreated.addService hfaithful hadd) hcomplete' h
    · cases h

theorem deleteServices_done (hfaithful : machine.Faithful)
    (h : deleteServices machine services w = (.ok (), w')) (key : Key) :
    w'.table.lookup key =
      if key ∈ services.map Service.key then none else w.table.lookup key := by
  induction services generalizing w with
  | nil =>
    obtain ⟨-, rfl⟩ := Prod.mk.inj h
    rfl
  | cons first rest ih =>
    rw [deleteServices] at h
    split at h
    · cases h
    · next mid hdelete =>
      obtain ⟨hagrees, -, hgone⟩ := deleteWith_spec hfaithful hdelete
      rw [ih h]
      by_cases hkey : key = first.key
      · subst hkey
        rw [List.map_cons, if_pos List.mem_cons_self, hgone rfl, ite_self]
      · simp [hkey, hagrees key hkey]

/-- **A round trip**: an `apply` that succeeds has added its services to the table as they are
    configured, where none of them was, and has changed nothing else. A `cleanup` that succeeds
    behind it leaves the table as it was before both. -/
theorem apply_cleanup (machine : Machine) (hfaithful : machine.Faithful) (config : Config)
    {table : IpvsTable} {w : World} (h : apply machine config ⟨table, []⟩ = (.ok (), w)) :
    (∀ service ∈ config.services, Owned service w.table ∧ table.lookup service.key = none) ∧
      (∀ key, key ∉ config.services.map Service.key → w.table.lookup key = table.lookup key) ∧
      ∀ w', cleanup machine config w = (.ok (), w') →
        ∀ key, w'.table.lookup key = table.lookup key := by
  unfold apply at h
  split at h
  · cases h
  · next hvalid =>
    split at h
    · next hcapable =>
      obtain ⟨hcreated, hcomplete⟩ := applyServices_done hfaithful (created_start _)
        (fun _ hservice => absurd hservice List.not_mem_nil) h
      refine ⟨fun service hservice => ⟨?_, ?_⟩, hcreated.others, fun w' hcleanup key => ?_⟩
      · exact ⟨_, hcomplete service hservice, rfl, rfl, fun _ => Iff.rfl⟩
      · exact hcreated.absent _ (List.mem_map_of_mem hservice)
      · rw [cleanup, hvalid] at hcleanup
        dsimp only at hcleanup
        rw [if_pos hcapable] at hcleanup
        split at hcleanup
        · cases hcleanup
        · next mid hcheck =>
          rw [deleteServices_done hfaithful hcleanup, (checkServices_spec hfaithful hcheck).1]
          split
          · next hkey => exact (hcreated.absent key hkey).symm
          · next hkey => exact hcreated.others key hkey
    · cases h

end runs

namespace Sample

def service : Service :=
  ⟨(192, 0, 2, 10), 80, .tcp, "rr".toList, [⟨(192, 0, 2, 21), 80, 1⟩]⟩

def preamble : List String :=
  ["IP Virtual Server", "Prot LocalAddress:Port", "  -> RemoteAddress:Port"]

def foreignLines : List String := ["UDP  192.0.2.9:53 wlc ops", "  -> 192.0.2.30:53 Masq 2 0 0"]

def ownHeader : String := "TCP  192.0.2.10:80 rr"

def ownDestination : String := "  -> 192.0.2.21:80 Route 1 0 0"

def text (lines : List String) : Text := lines.flatMap fun line => line.toList ++ [newline]

/-- A service of somebody else. -/
def foreign : IpvsTable :=
  (∅ : IpvsTable).insert ("UDP".toList, "192.0.2.9:53".toList) ⟨"wlc".toList,
    ["ops".toList], [⟨"192.0.2.30:53".toList, "Masq".toList, 2⟩]⟩

/-- The service is added, without its backend. -/
def bare : IpvsTable := foreign.insert service.key ⟨"rr".toList, [], []⟩

def complete : IpvsTable :=
  foreign.insert service.key
    ⟨"rr".toList, [], [⟨"192.0.2.21:80".toList, "Route".toList, 1⟩]⟩

/-- The third command fails, and other tables than those of the sample cannot be listed. -/
def machine : Machine where
  capable := true
  fails n := n == 2
  listing _ table :=
    if table.entries = foreign.entries then some (text (preamble ++ foreignLines))
    else if table.entries = bare.entries then some (text (preamble ++ [ownHeader] ++ foreignLines))
    else if table.entries = complete.entries then
      some (text (preamble ++ [ownHeader, ownDestination] ++ foreignLines))
    else none

theorem mem_entries_iff (table : IpvsTable) (key : Key) (listed : Virtual) :
    (key, listed) ∈ table.entries.map (fun entry => (entry.1, entry.2)) ↔
      table.lookup key = some listed := by
  rw [← Option.mem_def, AList.mem_lookup_iff, List.mem_map]
  constructor
  · rintro ⟨⟨key', listed'⟩, hmem, heq⟩
    cases heq
    exact hmem
  · exact fun hmem => ⟨_, hmem, rfl⟩

theorem preamble_words : ∀ line ∈ preamble.map String.toList, ∀ protocol : Protocol,
    (words line)[0]? ≠ some protocol.name := by
  intro line hline protocol
  simp only [preamble, List.map_cons, List.map_nil, List.mem_cons, List.not_mem_nil,
    or_false] at hline
  rcases hline with rfl | rfl | rfl <;> cases protocol <;> decide

/-- A text of lines lists a table whose services are in these lines. -/
theorem prints {table : IpvsTable} {texts : List String} {blocks : List (List Text)}
    (hlines : lines (text texts) = preamble.map String.toList ++ blocks.flatten)
    (hblocks : List.Forall₂ Block (table.entries.map fun entry => (entry.1, entry.2)) blocks) :
    Prints (text texts) table := by
  refine ⟨_, _, blocks, hlines, preamble_words, hblocks, ?_, mem_entries_iff table⟩
  have hkeys : (table.entries.map fun entry => (entry.1, entry.2)).map Prod.fst = table.keys := by
    rw [List.map_map]
    rfl
  rw [hkeys]
  exact table.keys_nodup

theorem foreign_block :
    Block (("UDP".toList, "192.0.2.9:53".toList), ⟨"wlc".toList,
      ["ops".toList], [⟨"192.0.2.30:53".toList, "Masq".toList, 2⟩]⟩)
      (foreignLines.map String.toList) := by
  refine ⟨_, _, _, rfl, ⟨by decide, by decide, by decide⟩, .refl _, .cons ?_ .nil⟩
  exact ⟨⟨"2".toList, ["0".toList, "0".toList], by decide, by decide⟩, by decide⟩

theorem machine_faithful : machine.Faithful := by
  intro n table listing h
  simp only [machine] at h
  split at h
  · next htable =>
    obtain rfl := Option.some.inj h
    obtain rfl := AList.ext htable
    exact @prints _ _ [foreignLines.map String.toList] (by decide +kernel)
      (.cons foreign_block .nil)
  · split at h
    · next htable =>
      obtain rfl := Option.some.inj h
      obtain rfl := AList.ext htable
      exact @prints _ _ [[ownHeader.toList], foreignLines.map String.toList] (by decide +kernel)
        (.cons ⟨_, _, _, rfl, ⟨by decide, by decide, by decide⟩, .refl _, .nil⟩
          (.cons foreign_block .nil))
    · split at h
      · next htable =>
        obtain rfl := Option.some.inj h
        obtain rfl := AList.ext htable
        refine @prints _ _ [[ownHeader.toList, ownDestination.toList],
          foreignLines.map String.toList] (by decide +kernel)
          (.cons ⟨_, _, _, rfl, ⟨by decide, by decide, by decide⟩, .refl _, .cons ?_ .nil⟩
            (.cons foreign_block .nil))
        exact ⟨⟨"1".toList, ["0".toList, "0".toList], by decide, by decide⟩, by decide⟩
      · cases h

end Sample

/-- The machine of the sample without its failure. -/
def Sample.working : Machine := { Sample.machine with fails := fun _ => false }

/-- A service is added beside the one of somebody else, and is removed again. -/
theorem apply_cleanup_sample : ∃ w w',
    apply Sample.working ⟨[Sample.service]⟩ ⟨Sample.foreign, []⟩ = (.ok (), w) ∧
      cleanup Sample.working ⟨[Sample.service]⟩ w = (.ok (), w') ∧
      ∀ key, w'.table.lookup key = Sample.foreign.lookup key := by
  have happly : apply Sample.working ⟨[Sample.service]⟩ ⟨Sample.foreign, []⟩ = (.ok (), _) :=
    Prod.ext (by decide +kernel) rfl
  have hcleanup : cleanup Sample.working ⟨[Sample.service]⟩
      (apply Sample.working ⟨[Sample.service]⟩ ⟨Sample.foreign, []⟩).2 = (.ok (), _) :=
    Prod.ext (by decide +kernel) rfl
  obtain ⟨-, -, hrestored⟩ :=
    apply_cleanup Sample.working Sample.machine_faithful ⟨[Sample.service]⟩ happly
  exact ⟨_, _, happly, hcleanup, hrestored _ hcleanup⟩

end Dsr
