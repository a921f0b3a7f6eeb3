import Hangang.PathBlocks

/-! # Request Blocks: Rules

    A rule denies requests by the values of their parameters, under a host and path selector
    that it shares with the blocked paths. -/

open Bytes

namespace RequestBlocks

inductive Match where
  | exact
  | literalPrefix
  | segmentPrefix
  | pathPrefix
  deriving DecidableEq, Repr

structure Condition where
  name : Bytes
  values : List Bytes := []
  matcher : Match := .exact
  caseInsensitive : Bool := false
  negate : Bool := false
  jsonField : Option Bytes := none
  defaultValue : Option Bytes := none
  stripPattern : Option Bytes := none
  deriving DecidableEq, Repr

/-- `request_block_spool::Config`. -/
structure SpoolConfig where
  directory : Bytes
  maxBodyBytes : Nat
  timeoutMs : Nat
  idleTimeoutMs : Nat
  maxFieldBytes : Nat
  deriving DecidableEq, Repr

structure Rule where
  path : Bytes
  hosts : List Bytes := []
  includeSubpaths : Bool := false
  methods : List Bytes := []
  params : List Condition
  maxBodyBytes : Nat := 65536
  timeoutMs : Nat := 2000
  multipartSpool : Option SpoolConfig := none
  deriving DecidableEq, Repr

/-- A rule with its compiled strip patterns, each given by what `replace_all` with the empty
    string makes of a value. -/
structure Compiled where
  rule : Rule
  patterns : List (Option (Bytes → Bytes))

/-- The selector of a rule. -/
def Rule.selector (rule : Rule) : PathBlocks.Rule := ⟨rule.path, rule.hosts⟩

/-- Whether a rule's selector matches a request; the error is a status. -/
def Rule.selects (authorityHost : Bytes → Option Bytes) (rule : Rule)
    (request : ResourceGuard.Request) (forwarded : Option Bytes) : Except Nat Bool :=
  PathBlocks.selectorMatches authorityHost rule.selector request forwarded rule.includeSubpaths

end RequestBlocks
