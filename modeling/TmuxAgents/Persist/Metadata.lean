/-
The private persistence protocol (`persistence.rs`): the codecs of the markers a
pane carries, and the projection, which alone decides whether they are authority.
-/
import TmuxAgents.Lib.Utf8
import TmuxAgents.Persist.Stamp
import TmuxAgents.Runtime.Recognize

namespace TmuxAgents

/-! ## Keys -/

namespace ProgramOpt

def collector : OptionKey := "@tma_program_collector"
def origin : OptionKey := "@tma_program_origin"
def owner : OptionKey := "@tma_program_owner"
def commit : OptionKey := "@tma_program_commit"
def result : OptionKey := "@tma_program_result"
def blockedHistory : OptionKey := "@tma_blocked_history"
def invalidated : OptionKey := "@tma_result_invalidated"
def ack : OptionKey := "@tma_program_ack"
def notified : OptionKey := "@tma_program_notified"
def receipt : OptionKey := "@tma_write_receipt"
def attentionEpisode : OptionKey := "@tma_attention_episode"
def episodeNotified : OptionKey := "@tma_episode_notified"
def metadataOwner : OptionKey := "@tma_metadata_owner"
def metadataUpdate : OptionKey := "@tma_metadata_update"
def markerClaim : OptionKey := "@tma_marker_claim"

end ProgramOpt

def leaseFutureMs : Nat := 17000

/-! ## Codecs -/

/-- A lowercase hex digit. -/
def isHexDigit (c : Char) : Bool := c.isDigit || ('a' ≤ c && c ≤ 'f')

/-- A 128-bit identity, 32 lowercase hex characters. -/
structure Token where
  text : Text
  valid : (text.length == 32 && text.all isHexDigit) = true
deriving DecidableEq

def Token.parse (value : Text) : Option Token :=
  if h : (value.length == 32 && value.all isHexDigit) = true then some ⟨value, h⟩ else none

/-- A canonical `u64`: no sign, no leading zero. -/
def number (value : Text) : Option Nat :=
  if value.isEmpty || 20 < Text.len value || !value.all Char.isDigit then none
  else
    match Text.parseUnsigned (2 ^ 64) value with
    | none => none
    | some n => if Text.decimal n = value then some n else none

/-- `split_once`. -/
def splitOnce (sep : Char) (text : Text) : Option (Text × Text) :=
  match text.dropWhile (· ≠ sep) with
  | [] => none
  | _ :: rest => some (text.takeWhile (· ≠ sep), rest)

structure CollectorLease where
  token : Token
  expiresAt : Nat
deriving DecidableEq

namespace CollectorLease

def encode (lease : CollectorLease) : Text := Text.decimal lease.expiresAt ++ ':' :: lease.token.text

def parse (raw : Text) : Option CollectorLease :=
  if 20 + 1 + 32 < Text.len raw then none
  else do
    let (expiry, token) ← splitOnce ':' raw
    let token ← Token.parse token
    let expiresAt ← number expiry
    some { token, expiresAt }

def liveAt (lease : CollectorLease) (now : Nat) : Bool :=
  decide (now < lease.expiresAt) && decide (lease.expiresAt ≤ saturatingAdd now leaseFutureMs)

end CollectorLease

def processFields (process : ProcessIdentity) : Text :=
  match process.birth with
  | .linuxStartTicks ticks => Text.decimal process.pid ++ ":l:".toList ++ Text.decimal ticks
  | .macOsStart seconds microseconds =>
    Text.decimal process.pid ++ ":m:".toList ++ Text.decimal seconds ++ ':' :: Text.decimal microseconds

/-- `parse_process` on all of a process's fields. -/
def parseProcess (fields : List Text) : Option ProcessIdentity :=
  match fields with
  | pid :: kind :: rest => do
    let pid ← number pid
    if 2 ^ 32 ≤ pid ∨ pid = 0 then none
    else if kind = ['l'] then
      match rest with
      | [ticks] => (number ticks).map fun ticks => { pid, birth := .linuxStartTicks ticks }
      | _ => none
    else if kind = ['m'] then
      match rest with
      | [seconds, microseconds] => do
        let seconds ← number seconds
        let microseconds ← number microseconds
        if 1000000 ≤ microseconds then none else some { pid, birth := .macOsStart seconds microseconds }
      | _ => none
    else none
  | _ => none

/-- The birth is in range. -/
def ProcessIdentity.sound (process : ProcessIdentity) : Bool :=
  process.pid ≠ 0 && match process.birth with
    | .linuxStartTicks _ => true
    | .macOsStart _ microseconds => decide (microseconds < 1000000)

/-- A pane's lineage, from its root to the agent. -/
def chainOk (chain : List ProcessIdentity) : Bool :=
  !chain.isEmpty && decide (chain.length ≤ 256) && chain.all ProcessIdentity.sound &&
    decide (chain.map ProcessIdentity.pid).Nodup

structure ProcessChain where
  processes : List ProcessIdentity
  valid : chainOk processes = true
deriving DecidableEq

namespace ProcessChain

def new (chain : List ProcessIdentity) : Option ProcessChain :=
  if h : chainOk chain = true then some ⟨chain, h⟩ else none

theorem ne_nil (chain : ProcessChain) : chain.processes ≠ [] := by
  intro h
  have hv := chain.valid
  rw [h] at hv
  cases hv

def agent (chain : ProcessChain) : ProcessIdentity := chain.processes.getLast chain.ne_nil

def encode (chain : ProcessChain) : Text := ['~'].intercalate (chain.processes.map processFields)

def maxBytes : Nat := 256 * (10 + 3 + 20 + 1 + 6 + 1) - 1

def parse (raw : Text) : Option ProcessChain :=
  if maxBytes < Text.len raw then none
  else do
    let chain ← ((raw.splitOn '~').take 257).mapM fun process => parseProcess (process.splitOn ':')
    new chain

end ProcessChain

structure PaneOwner where
  collector : Token
  episode : EpisodeId
  processes : ProcessChain
  streamEpoch : Nat
deriving DecidableEq

namespace PaneOwner

def maxBytes : Nat := 32 + 1 + 20 + 1 + 20 + 1 + ProcessChain.maxBytes

def encode (owner : PaneOwner) : Text :=
  owner.collector.text ++ ':' :: (Text.decimal owner.episode ++ ':' ::
    (Text.decimal owner.streamEpoch ++ ':' :: owner.processes.encode))

def parse (raw : Text) : Option PaneOwner :=
  if maxBytes < Text.len raw then none
  else
    match Text.splitn 4 ':' raw with
    | [collector, episode, streamEpoch, processes] => do
      let collector ← Token.parse collector
      let episode ← number episode
      let streamEpoch ← number streamEpoch
      let processes ← ProcessChain.parse processes
      if episode = 0 ∨ streamEpoch = 0 then none else some { collector, episode, processes, streamEpoch }
    | _ => none

end PaneOwner

structure CommitMarker where
  write : Token
  owner : PaneOwner
deriving DecidableEq

namespace CommitMarker

def encode (marker : CommitMarker) : Text := marker.write.text ++ '|' :: marker.owner.encode

def parse (raw : Text) : Option CommitMarker :=
  if 32 + 1 + PaneOwner.maxBytes < Text.len raw then none
  else do
    let (write, owner) ← splitOnce '|' raw
    let write ← Token.parse write
    let owner ← PaneOwner.parse owner
    some { write, owner }

end CommitMarker

/-- The text of an ASCII id. -/
def RecordId.text (id : RecordId) : Text := id.str.map fun b => Char.ofNat b.toNat

/-- The empty text is the root. -/
def RecordId.ofText (text : Text) : Option RecordId :=
  if text.isEmpty then some .root
  else match RecordId.parse (Text.bytes text) with
    | .ok id => some id
    | .error _ => none

structure PersistedResult where
  owner : PaneOwner
  identity : ResultIdentity
  cycle : WorkCycle
  kind : ResultKind
deriving DecidableEq

namespace PersistedResult

def new (owner : PaneOwner) (result : ProgramResult) : Option PersistedResult :=
  if owner.episode = result.identity.owner then
    some { owner, identity := result.identity, cycle := result.cycle, kind := result.kind }
  else none

def encode (result : PersistedResult) : Text :=
  result.owner.encode ++ '|' :: (result.identity.record.text ++ '|' ::
    (Text.decimal result.identity.generation ++ '|' :: (Text.decimal result.cycle ++ '|' ::
      match result.kind with
      | .completion => "done".toList
      | .failure => "error".toList)))

def maxBytes : Nat := PaneOwner.maxBytes + maxIdBytes + 20 + 20 + 5 + 4

def parse (raw : Text) : Option PersistedResult :=
  if maxBytes < Text.len raw then none
  else
    match raw.splitOn '|' with
    | [owner, record, generation, cycle, kind] => do
      let owner ← PaneOwner.parse owner
      let record ← RecordId.ofText record
      let generation ← number generation
      let cycle ← number cycle
      let kind ← if kind = "done".toList then some .completion
        else if kind = "error".toList then some .failure
        else none
      if generation = 0 then none
      else some { owner, identity := { owner := owner.episode, record, generation }, cycle, kind }
    | _ => none

end PersistedResult

structure NotificationClaim where
  token : Token
  result : PersistedResult
deriving DecidableEq

namespace NotificationClaim

def encode (claim : NotificationClaim) : Text := claim.token.text ++ '|' :: claim.result.encode

def parse (raw : Text) : Option NotificationClaim :=
  if 32 + 1 + PersistedResult.maxBytes < Text.len raw then none
  else do
    let (token, result) ← splitOnce '|' raw
    let token ← Token.parse token
    let result ← PersistedResult.parse result
    some { token, result }

end NotificationClaim

/-- Two lowercase hex digits. -/
def hexByte (b : UInt8) : Text := [Nat.digitChar (b.toNat / 16), Nat.digitChar (b.toNat % 16)]

/-- Whose hook metadata a pane carries, a lifetime apart from the state's. -/
structure MetadataOwner where
  process : ProcessIdentity
  session : Text
deriving DecidableEq

def MetadataOwner.encode (owner : MetadataOwner) : Text :=
  processFields owner.process ++ '|' :: (Text.bytes owner.session).flatMap hexByte

/-! ## The projection -/

inductive ProjectionRead
  | legacy (read : Option ReadResult)
  | live (stamp : StampedState) (owner : PaneOwner) (commit : CommitMarker)
  /-- History for recovery, never authority. -/
  | stale
deriving DecidableEq

/-- The markers, parsed once. -/
structure ProgramMetadata where
  programOrigin : Bool
  originComplete : Bool
  owner : Option PaneOwner
  commit : Option CommitMarker
  lease : Option CollectorLease
  result : Option PersistedResult
  invalidated : Option PersistedResult
  acknowledged : Option PersistedResult
  notified : Option NotificationClaim

namespace ProgramMetadata

def fromOptions (options : Options) : ProgramMetadata where
  programOrigin := [ProgramOpt.origin, ProgramOpt.owner, ProgramOpt.commit].any fun key =>
    (options key).any fun v => !v.isEmpty
  originComplete := options ProgramOpt.origin = some ['1']
  owner := (options ProgramOpt.owner).bind PaneOwner.parse
  commit := (options ProgramOpt.commit).bind CommitMarker.parse
  lease := (options ProgramOpt.collector).bind CollectorLease.parse
  result := (options ProgramOpt.result).bind PersistedResult.parse
  invalidated := (options ProgramOpt.invalidated).bind PersistedResult.parse
  acknowledged := (options ProgramOpt.ack).bind PersistedResult.parse
  notified := (options ProgramOpt.notified).bind NotificationClaim.parse

def projection (program : ProgramMetadata) (options : Options) (now : Nat) : Except GrammarError ProjectionRead :=
  if !program.programOrigin then (StampedState.fromOptions options).map .legacy
  else
    match program.owner, program.commit, program.lease with
    | some owner, some commit, some lease =>
      if !program.originComplete || commit.owner ≠ owner || lease.token ≠ owner.collector || !lease.liveAt now then
        .ok .stale
      else
        match StampedState.fromOptions options with
        | .error e => .error e
        | .ok (some (.settled stamp)) =>
          if stamp.pid = owner.processes.agent.pid ∧ stamp.source = .hook then .ok (.live stamp owner commit)
          else .ok .stale
        | .ok _ => .ok .stale
    | _, _, _ => .ok .stale

end ProgramMetadata

def readProjection (options : Options) (now : Nat) : Except GrammarError ProjectionRead :=
  (ProgramMetadata.fromOptions options).projection options now

end TmuxAgents
