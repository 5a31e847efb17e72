/-
Whose pane it is (`recognize` of the runtime's `program_status.rs`): the agent
of a pane's process tree, with the births of every process from the pane's
root down to it.

How an agent is identified (`identity.rs`, over the loaded manifests) is a
parameter, `Manifests`: nothing proved of the runtime depends on it.
-/
import TmuxAgents.Lib.SortedMap
import TmuxAgents.Program.Record

namespace TmuxAgents

/-! ## Processes -/

/-- Kernel process creation identity, in the platform's own units. -/
inductive ProcessBirth
  | linuxStartTicks (ticks : Nat)
  | macOsStart (seconds microseconds : Nat)
deriving DecidableEq

structure ProcessIdentity where
  pid : Nat
  birth : ProcessBirth
deriving DecidableEq

/-- An unavailable birth is never a valid zero-valued identity. -/
inductive ProcessUnavailable
  | notFound
  | permissionDenied
  | unsupported
  | malformed
  | readFailed
deriving DecidableEq

structure ProcInfo where
  pid : Nat
  ppid : Nat
  pgid : Nat
  tpgid : Option Nat
  comm : String

/-- One sample of every process of the machine. -/
structure ProcessSnapshot where
  processes : List ProcInfo
  births : SortedMap Nat (Except ProcessUnavailable ProcessBirth)

def ProcessSnapshot.identity (snapshot : ProcessSnapshot) (pid : Nat) : Except ProcessUnavailable ProcessIdentity :=
  ((snapshot.births.get? pid).getD (.error .notFound)).map fun birth => { pid, birth }

/-! ## Panes -/

/-- Why a pane is out of scope for detection, with the matched foreground command. -/
inductive OutOfScope
  | remoteShell (command : String)
  | multiplexer (command : String)
deriving DecidableEq

structure Registration where
  agentName : String
  session : Option String

/-- Fresh pane facts, independently of protocol text. -/
structure ProgramPane where
  pane : PaneId
  panePid : Nat
  currentCommand : String
  title : String
  ignored : Bool
  registration : Option Registration

inductive RecoveryReason
  | bindingBoundary
  | processUnavailable (reason : ProcessUnavailable)
  | unrecognized
  | ignored
  | excluded (scope : OutOfScope)
  | noAliases
  | noStream
  | identityChanged
  | processChangedDuringBatch
  | observation (reason : ObservationGap)
  | scopeLost
  | fullReset
  | shellPrompt
  | attachedProcessExit
  | paneRemoved
  | disabled
  | capabilityUnavailable
  | leaseLost
  | persistenceLost
  | workBudgetExceeded
deriving DecidableEq

/-! ## Recognition -/

/-- The title anchor a prior binding keeps: the manifest, and the agent it matched on. -/
structure TitleAnchor where
  agent : String
  pid : Nat

/-- An identified agent: its manifest's name and app aliases, its process, and the
out-of-scope foreground its registration outranks. -/
structure Identified where
  manifest : String
  apps : List AppId
  agentPid : Nat
  behind : Option OutOfScope

/-- The loaded manifests, by what is identified with them. -/
structure Manifests where
  programOutOfScope : String → Option OutOfScope
  /-- `none` is any answer but an agent. -/
  identify : ProgramPane → List ProcInfo → Option TitleAnchor → Option Identified

/-- What a pane was recognized as: root first, independently identified agent last. Every
intermediate birth matters, since a reused parent could otherwise forge ancestry. -/
structure Recognized where
  manifest : String
  apps : List AppId
  chain : List ProcessIdentity
deriving DecidableEq

def maxAncestry : Nat := 256

/-- The walk from `pid` up to `root`, with room for so many more processes. -/
def ancestryFrom (snapshot : ProcessSnapshot) (root : Nat) :
    Nat → List ProcessIdentity → Nat → Except RecoveryReason (List ProcessIdentity)
  | room, chain, pid =>
    match snapshot.identity pid with
    | .error reason => .error (.processUnavailable reason)
    | .ok identity =>
      match room with
      | 0 => .error .unrecognized
      | room + 1 =>
        if identity ∈ chain then .error .unrecognized
        else if pid = root then .ok (chain ++ [identity]).reverse
        else
          match snapshot.processes.find? fun process => process.pid == pid with
          | none => .error .unrecognized
          | some process => ancestryFrom snapshot root room (chain ++ [identity]) process.ppid

def ancestry (snapshot : ProcessSnapshot) (root agent : Nat) : Except RecoveryReason (List ProcessIdentity) :=
  ancestryFrom snapshot root maxAncestry [] agent

/-- A prior recognition anchors the title while each of its processes lives on. -/
def titleAnchor (pane : ProgramPane) (snapshot : ProcessSnapshot) (prior : Option Recognized) : Option TitleAnchor :=
  (prior.filter fun recognized =>
    recognized.chain.head?.any (fun root => root.pid == pane.panePid) &&
      recognized.chain.all fun identity =>
        match snapshot.identity identity.pid with
        | .ok current => current == identity
        | .error _ => false).bind fun recognized =>
    recognized.chain.getLast?.map fun agent => { agent := recognized.manifest, pid := agent.pid }

def recognize (pane : ProgramPane) (snapshot : ProcessSnapshot) (manifests : Manifests)
    (prior : Option Recognized) : Except RecoveryReason Recognized :=
  if pane.ignored then .error .ignored
  else
    -- Repeat exclusions before identification, including registered carve-outs.
    match manifests.programOutOfScope pane.currentCommand with
    | some scope => .error (.excluded scope)
    | none =>
      match snapshot.identity pane.panePid with
      | .error reason => .error (.processUnavailable reason)
      | .ok _ =>
        match (manifests.identify pane snapshot.processes (titleAnchor pane snapshot prior)).filter
            fun agent => decide (agent.agentPid > 0) && agent.behind.isNone with
        | none => .error .unrecognized
        | some identified =>
          if identified.apps.isEmpty then .error .noAliases
          else
            (ancestry snapshot pane.panePid identified.agentPid).map fun chain =>
              { manifest := identified.manifest, apps := identified.apps, chain }

/-- An ancestry has at least the agent. -/
theorem ancestryFrom_ne_nil {snapshot : ProcessSnapshot} {root : Nat} :
    ∀ {room : Nat} {chain : List ProcessIdentity} {pid : Nat} {found : List ProcessIdentity},
      ancestryFrom snapshot root room chain pid = .ok found → found ≠ []
  | room, chain, pid, found, h => by
    unfold ancestryFrom at h
    split at h
    · cases h
    · rename_i identity hidentity
      cases room with
      | zero => cases h
      | succ room =>
        dsimp only at h
        split at h
        · cases h
        · split at h
          · cases h
            simp
          · split at h
            · cases h
            · exact ancestryFrom_ne_nil h

theorem recognize_chain {pane : ProgramPane} {snapshot : ProcessSnapshot} {manifests : Manifests}
    {prior : Option Recognized} {identity : Recognized}
    (h : recognize pane snapshot manifests prior = .ok identity) : identity.chain ≠ [] := by
  unfold recognize at h
  split at h
  · cases h
  split at h
  · cases h
  split at h
  · cases h
  split at h
  · cases h
  rename_i identified _
  split at h
  · cases h
  cases hchain : ancestry snapshot pane.panePid identified.agentPid with
  | error reason =>
    rw [hchain] at h
    cases h
  | ok chain =>
    rw [hchain] at h
    cases h
    exact ancestryFrom_ne_nil hchain

end TmuxAgents
