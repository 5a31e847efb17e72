/-
What an event is (`EventKind`, `model.rs`), and what a header leaves of it: strings cut at the
budget, each a front of the whole one.

A cost is a float, which the reader only passes on.
-/
import TmuxAgents.Transcript.Event

namespace TmuxAgents.Transcript

/-! ## Kinds -/

structure SessionMeta where
  agent : Text := []
  sessionId : Option Text := none
  cwd : Option Text := none
  version : Option Text := none
  model : Option Text := none
deriving DecidableEq

inductive ResultStatus
  | ok
  | error
  | pending
  | unknown
deriving DecidableEq

inductive TurnKind
  | start
  | finish
deriving DecidableEq

inductive EventKind (Cost : Type)
  | sessionMeta (session : SessionMeta)
  | userMessage (bytes attachments : Nat)
  | assistantText (bytes : Nat)
  | thinking (bytes : Nat) (redacted : Bool)
  | toolCall (name : Text) (callId : Option Text) (argKeys : List Text) (bytes : Nat)
  | toolResult (callId : Option Text) (status : ResultStatus) (bytes : Nat)
  | permissionRequest (tool : Text) (callId : Option Text)
  | turnBoundary (kind : TurnKind) (reason : Option Text)
  | usage (input output total contextWindow : Option Nat) (costUsd : Option Cost)
  | subagentRef (childId : Text) (externalFile : Bool)
  | compaction (kind : Text)
  | attachment (kind : Text) (bytes : Nat)
  | bookkeeping (typeName : Text)
  | unknown (typeName : Text)
deriving DecidableEq

namespace EventKind

variable {Cost : Type}

/-- `cap` on every string a kind carries. -/
def mapStrings (cap : Text → Text) : EventKind Cost → EventKind Cost
  | sessionMeta session =>
    sessionMeta
      { agent := cap session.agent
        sessionId := session.sessionId.map cap
        cwd := session.cwd.map cap
        version := session.version.map cap
        model := session.model.map cap }
  | toolCall name callId argKeys bytes => toolCall (cap name) (callId.map cap) (argKeys.map cap) bytes
  | toolResult callId status bytes => toolResult (callId.map cap) status bytes
  | permissionRequest tool callId => permissionRequest (cap tool) (callId.map cap)
  | turnBoundary kind reason => turnBoundary kind (reason.map cap)
  | subagentRef childId externalFile => subagentRef (cap childId) externalFile
  | compaction kind => compaction (cap kind)
  | attachment kind bytes => attachment (cap kind) bytes
  | bookkeeping typeName => bookkeeping (cap typeName)
  | unknown typeName => unknown (cap typeName)
  | userMessage bytes attachments => userMessage bytes attachments
  | assistantText bytes => assistantText bytes
  | thinking bytes redacted => thinking bytes redacted
  | usage input output total contextWindow costUsd => usage input output total contextWindow costUsd

/-- Every string at the budget. -/
def truncateStrings (budget : Nat) (kind : EventKind Cost) : EventKind Cost :=
  kind.mapStrings fun s => truncateUtf8 s budget

def isUnknown : EventKind Cost → Bool
  | unknown _ => true
  | _ => false

/-- The strings a kind carries. -/
def strings : EventKind Cost → List Text
  | sessionMeta session =>
    session.agent :: (session.sessionId.toList ++ session.cwd.toList ++ session.version.toList ++ session.model.toList)
  | toolCall name callId argKeys _ => name :: (callId.toList ++ argKeys)
  | toolResult callId _ _ => callId.toList
  | permissionRequest tool callId => tool :: callId.toList
  | turnBoundary _ reason => reason.toList
  | subagentRef childId _ => [childId]
  | compaction kind => [kind]
  | attachment kind _ => [kind]
  | bookkeeping typeName => [typeName]
  | unknown typeName => [typeName]
  | userMessage _ _ | assistantText _ | thinking _ _ | usage _ _ _ _ _ => []

theorem toList_map {α β : Type} (f : α → β) (o : Option α) : (o.map f).toList = o.toList.map f := by
  cases o with
  | none => rfl
  | some a => rfl

theorem strings_mapStrings (cap : Text → Text) (kind : EventKind Cost) :
    (kind.mapStrings cap).strings = kind.strings.map cap := by
  cases kind with
  | sessionMeta session => simp only [mapStrings, strings, toList_map, List.map_cons, List.map_append]
  | toolCall name callId argKeys bytes => simp only [mapStrings, strings, toList_map, List.map_cons, List.map_append]
  | toolResult callId status bytes => exact toList_map cap callId
  | permissionRequest tool callId => simp only [mapStrings, strings, toList_map, List.map_cons]
  | turnBoundary kind reason => exact toList_map cap reason
  | _ => rfl

theorem mapStrings_comp {cap cap' cap'' : Text → Text} (h : ∀ s, cap' (cap s) = cap'' s) (kind : EventKind Cost) :
    (kind.mapStrings cap).mapStrings cap' = kind.mapStrings cap'' := by
  have hcap : cap' ∘ cap = cap'' := funext h
  cases kind with
  | sessionMeta session => simp only [mapStrings, Option.map_map, hcap, h]
  | toolCall name callId argKeys bytes => simp only [mapStrings, Option.map_map, List.map_map, hcap, h]
  | toolResult callId status bytes => simp only [mapStrings, Option.map_map, hcap]
  | permissionRequest tool callId => simp only [mapStrings, Option.map_map, hcap, h]
  | turnBoundary kind reason => simp only [mapStrings, Option.map_map, hcap]
  | userMessage _ _ | assistantText _ | thinking _ _ | usage _ _ _ _ _ => rfl
  | _ => simp only [mapStrings, h]

end EventKind

/-! ## Cut strings -/

theorem len_truncateUtf8_le (s : Text) (max : Nat) : (truncateUtf8 s max).len ≤ max := by
  induction s generalizing max with
  | nil => exact Nat.zero_le max
  | cons c rest ih =>
    rw [truncateUtf8]
    split
    next hle =>
      have hrest := ih (max - c.utf8Size)
      rw [Text.len_cons]
      omega
    next => exact Nat.zero_le max

theorem truncateUtf8_prefix (s : Text) (max : Nat) : truncateUtf8 s max <+: s := by
  induction s generalizing max with
  | nil => exact List.prefix_refl _
  | cons c rest ih =>
    rw [truncateUtf8]
    split
    next => exact List.cons_prefix_cons.mpr ⟨rfl, ih _⟩
    next => exact List.nil_prefix

theorem prefix_truncateUtf8 {front s : Text} {max : Nat} (h : front <+: s) (hle : front.len ≤ max) :
    front <+: truncateUtf8 s max := by
  obtain ⟨rest, rfl⟩ := h
  induction front generalizing max with
  | nil => exact List.nil_prefix
  | cons c front ih =>
    rw [Text.len_cons] at hle
    rw [List.cons_append, truncateUtf8, if_pos (by omega)]
    exact List.cons_prefix_cons.mpr ⟨rfl, ih (by omega)⟩

theorem truncateUtf8_of_le {s : Text} {max : Nat} (h : s.len ≤ max) : truncateUtf8 s max = s := by
  induction s generalizing max with
  | nil => rfl
  | cons c rest ih =>
    rw [Text.len_cons] at h
    rw [truncateUtf8, if_pos (by omega), ih (by omega)]

theorem truncateUtf8_truncateUtf8 (s : Text) (max : Nat) :
    truncateUtf8 (truncateUtf8 s max) max = truncateUtf8 s max := truncateUtf8_of_le (len_truncateUtf8_le s max)

/-! ## Headers -/

def Store.asStr : Store → Text
  | .claude => "claude".toList
  | .codex => "codex".toList
  | .gemini => "gemini".toList
  | .pi => "pi".toList
  | .cursor => "cursor".toList
  | .openCode => "opencode".toList

/-- The readers of the source's own kinds, from what reads a record and a session header. -/
def kindAdapters {Cost : Type} (mapRecord : Store → Bytes → Option (Option Text × List (Mapped (EventKind Cost))))
    (sessionMeta : Store → Bytes → Option SessionMeta) : Adapters (EventKind Cost) SessionMeta where
  mapRecord := mapRecord
  sessionMeta := sessionMeta
  unparsable store := .unknown (store.asStr ++ "/unparsable".toList)
  isUnknown := EventKind.isUnknown
  truncateStrings := EventKind.truncateStrings

/-- A string of a header: of the whole one, the longest front within the budget. -/
def Cut (budget : Nat) (whole part : Text) : Prop :=
  part.len ≤ budget ∧ part <+: whole ∧ ∀ front : Text, front <+: whole → front.len ≤ budget → front <+: part

section

variable {Kind Session : Type} {adapters : Adapters Kind Session}

/-- A header is its own header. -/
theorem toHeader_toHeader (h : ∀ budget kind, adapters.truncateStrings budget (adapters.truncateStrings budget kind) =
    adapters.truncateStrings budget kind) (event : Event Kind) (budget : Budget) :
    (event.toHeader adapters budget).toHeader adapters budget = event.toHeader adapters budget := by
  simp only [Event.toHeader, h, Option.map_none, Option.or_none, Option.map_map]
  congr 1
  exact congrArg (Option.map · _) (funext fun p => truncateUtf8_truncateUtf8 p budget.headerBytes)

end

section

variable {Cost : Type} {mapRecord : Store → Bytes → Option (Option Text × List (Mapped (EventKind Cost)))}
  {sessionMeta : Store → Bytes → Option SessionMeta}

theorem truncateStrings_idem (budget : Nat) (kind : EventKind Cost) :
    (kind.truncateStrings budget).truncateStrings budget = kind.truncateStrings budget :=
  EventKind.mapStrings_comp (fun s => truncateUtf8_truncateUtf8 s budget) kind

/-- The header of an event is the event without its body: every string of its kind and its preview, which is the first
line of the body where the event has none, is cut at the budget, and the rest is as it is. And it is its own header. -/
theorem header_cut (event : Event (EventKind Cost)) (budget : Budget) :
    List.Forall₂ (Cut budget.headerBytes) event.kind.strings
        (event.toHeader (kindAdapters mapRecord sessionMeta) budget).kind.strings ∧
      ((event.toHeader (kindAdapters mapRecord sessionMeta) budget).kind.mapStrings fun _ => []) =
        event.kind.mapStrings (fun _ => []) ∧
      List.Forall₂ (Cut budget.headerBytes) (event.preview.or (event.body.map fun b => firstLine b.asStr)).toList
        (event.toHeader (kindAdapters mapRecord sessionMeta) budget).preview.toList ∧
      (event.toHeader (kindAdapters mapRecord sessionMeta) budget).cursor = event.cursor ∧
      (event.toHeader (kindAdapters mapRecord sessionMeta) budget).ts = event.ts ∧
      (event.toHeader (kindAdapters mapRecord sessionMeta) budget).body = none ∧
      (event.toHeader (kindAdapters mapRecord sessionMeta) budget).toHeader (kindAdapters mapRecord sessionMeta) budget =
        event.toHeader (kindAdapters mapRecord sessionMeta) budget := by
  have hcut : ∀ wholes : List Text, List.Forall₂ (Cut budget.headerBytes) wholes
      (wholes.map fun s => truncateUtf8 s budget.headerBytes) := by
    intro wholes
    rw [List.forall₂_map_right_iff]
    exact List.forall₂_same.mpr fun s _ =>
      ⟨len_truncateUtf8_le s _, truncateUtf8_prefix s _, fun _ hfront hle => prefix_truncateUtf8 hfront hle⟩
  have hstrings : (event.toHeader (kindAdapters mapRecord sessionMeta) budget).kind.strings =
      event.kind.strings.map fun s => truncateUtf8 s budget.headerBytes :=
    EventKind.strings_mapStrings (fun s => truncateUtf8 s budget.headerBytes) event.kind
  have hrest : ((event.kind.truncateStrings budget.headerBytes).mapStrings fun _ => []) = event.kind.mapStrings fun _ => [] :=
    EventKind.mapStrings_comp (fun _ => rfl) event.kind
  refine ⟨?_, hrest, ?_, rfl, rfl, rfl, toHeader_toHeader truncateStrings_idem event budget⟩
  · rw [hstrings]
    exact hcut _
  · rw [Event.toHeader, EventKind.toList_map]
    exact hcut _

end

end TmuxAgents.Transcript
