/-
A scanner between boundaries: whatever calls come between the bytes, a command
is a whole frame of them, and opaque text emits nothing.

`Framed` keeps the bytes observed since the last boundary beside the scanner.
It says less than `Traced`, and so every boundary restarts it.

`Quiet P bytes Q` reads as a triple: a scanner in `P` that the bytes reach, fed
or quarantined and with boundaries and losses anywhere between them, emits
nothing and ends in `Q`.
-/
import TmuxAgents.Control.Constructs

namespace TmuxAgents

/-- The calls a scanner answers. -/
inductive ScannerOp
  | feed (byte : UInt8)
  | boundary
  | loss
  | feedQuarantined (byte : UInt8)
deriving DecidableEq

/-- The byte a call shows the scanner. -/
def ScannerOp.byte? : ScannerOp → Option UInt8
  | .feed byte | .feedQuarantined byte => some byte
  | .boundary | .loss => none

abbrev shownBytes (ops : List ScannerOp) : Bytes := ops.filterMap ScannerOp.byte?

/-- The bytes fed since the last other call. -/
def ScannerOp.fed (seen : Bytes) : ScannerOp → Bytes
  | .feed byte => seen ++ [byte]
  | .boundary | .loss | .feedQuarantined _ => []

/-- The bytes fed since the last other call, behind the byte of that call if it was quarantined. -/
def ScannerOp.observed (seen : Bytes) : ScannerOp → Bytes
  | .feed byte => seen ++ [byte]
  | .feedQuarantined byte => [byte]
  | .boundary | .loss => []

abbrev fedSince (ops : List ScannerOp) : Bytes := Run.run ScannerOp.fed [] ops
abbrev observedSince (ops : List ScannerOp) : Bytes := Run.run ScannerOp.observed [] ops

/-! ## The text of a string -/

namespace StringKind

/-- Reading the text of a string, and whether an ESC is pending in it: none where the string ends.
A DCS takes ESC pairs whole and no cancellation. In any other string, ESC-P opens a DCS. -/
def read : StringKind × Bool → UInt8 → Option (StringKind × Bool)
  | (.dcs, true), byte => if byte = backslash then none else some (.dcs, false)
  | (.dcs, false), byte => some (.dcs, byte == esc)
  | (kind, escaped), byte =>
    if byte = 0x18 ∨ byte = 0x1a ∨ (escaped = true ∧ byte = backslash) ∨ (kind = .osc ∧ byte = bel) then none
    else if escaped = true ∧ byte = 0x50 then some (.dcs, false)
    else some (kind, byte == esc || (escaped && escapeIgnored byte))

/-- The text leaves open the string it began in. -/
def LeavesOpen (kind : StringKind) (text : Bytes) : Prop := (text.foldlM read (kind, false)).isSome = true

end StringKind

/-- Bytes that lie in opaque text, from the ESC that begins it: a string other than an OSC, any
string introduced after an ignored byte, and an OSC from another's text on. -/
inductive Opaque : Bytes → Prop
  | string {kind : StringKind} {intro : UInt8} {text : Bytes} (hintro : StringKind.introducedBy intro = some kind)
    (hkind : kind ≠ .osc) (hopen : kind.LeavesOpen text) : Opaque (esc :: intro :: text)
  | dirty {kind : StringKind} {first intro : UInt8} {ignored text : Bytes}
    (hintro : StringKind.introducedBy intro = some kind) (hfirst : escapeIgnored first = true)
    (hignored : ∀ byte ∈ ignored, escapeIgnored byte = true) (hopen : kind.LeavesOpen text) :
    Opaque (esc :: first :: ignored ++ intro :: text)
  | nested {text inner : Bytes} (hopen : StringKind.osc.LeavesOpen (text ++ esc :: bracket :: inner)) :
    Opaque (esc :: bracket :: text ++ esc :: bracket :: inner)

namespace Scanner

/-- A scanner before its first byte, in ground or attached mid-stream. -/
def fresh (synchronized : Bool) : Scanner := if synchronized then {} else unsynchronized

/-- In no string. A lost scanner may be anywhere. -/
def OutsideString (s : Scanner) : Prop := ∀ kind escape suppressed, s.state ≠ .string kind escape suppressed

variable [Base64]

def step (s : Scanner) : ScannerOp → Scanner
  | .feed byte => s.next byte
  | .boundary => s.boundary
  | .loss => s.loss
  | .feedQuarantined byte => s.feedQuarantined byte

/-- The event a call answers. What a quarantined byte completes is dropped. -/
def answers (s : Scanner) : ScannerOp → Option ProgramEvent
  | .feed byte => s.emits byte
  | .boundary | .loss | .feedQuarantined _ => none

/-! ## Commands are whole frames -/

/-- What the bytes observed must end in, for the scanner to be reading a command. -/
structure Framed (s : Scanner) (seen : Bytes) : Prop where
  escape : s.state = .escape → ∃ before, seen = before ++ [esc]
  osc : ∀ escape, s.state = .string .osc escape false → ∃ before body, seen = before ++ esc :: bracket :: body ∧
    (s.oversized = false → s.candidate = body) ∧ (escape = true → EndsEscape body)

omit [Base64] in
theorem Traced.framed {s : Scanner} {seen : Bytes} (h : Traced s seen) : Framed s seen := ⟨h.escape, h.osc⟩

omit [Base64] in
/-- Only an ESC begins an escape. -/
theorem escape_of_step {state : State} {byte : UInt8} (h : state.step byte = .escape) : byte = esc := by
  have hescape : ∀ suppressed, State.escapeStep suppressed byte = .escape → byte = esc := fun suppressed h => by
    unfold State.escapeStep at h
    cases hi : StringKind.introducedBy byte with
    | some kind => simp [hi] at h
    | none =>
      rw [hi] at h
      dsimp only at h
      repeat' (first | assumption | cases h | split at h)
  unfold State.step at h
  split at h
  · cases h
  cases state with
  | ground =>
    dsimp only at h
    split at h
    · assumption
    · cases h
  | escape => exact hescape false h
  | dirtyEscape => exact hescape true h
  | csi =>
    dsimp only at h
    repeat' (first | assumption | cases h | split at h)
  | string kind escape suppressed =>
    dsimp only [State.stringStep] at h
    repeat' (first | cases h | split at h)
  | lost phase =>
    dsimp only [feedLost] at h
    repeat' (first | cases h | split at h)

omit [Base64] in
/-- An OSC whose text counts was introduced by a clean escape. -/
theorem osc_of_step {state : State} {byte : UInt8} {escape : Bool} (h : state.step byte = .string .osc escape false) :
    state = .escape ∨ ∃ escape, state = .string .osc escape false := by
  unfold State.step at h
  split at h
  · cases h
  cases state with
  | ground =>
    dsimp only at h
    split at h <;> cases h
  | escape => exact .inl rfl
  | dirtyEscape =>
    dsimp only [State.escapeStep] at h
    split at h
    · cases h
    · repeat' (first | cases h | split at h)
  | csi =>
    dsimp only at h
    repeat' (first | cases h | split at h)
  | string kind escape' suppressed =>
    dsimp only [State.stringStep] at h
    split at h
    · cases h
    · split at h
      · split at h <;> cases h
      · simp only [State.string.injEq] at h
        obtain ⟨rfl, -, rfl⟩ := h
        exact .inr ⟨escape', rfl⟩
  | lost phase =>
    dsimp only [feedLost] at h
    repeat' (first | cases h | split at h)

/-- A string that is no OSC, or suppressed, emits nothing. -/
theorem emits_string {s : Scanner} {kind : StringKind} {escape suppressed : Bool}
    (hs : s.state = .string kind escape suppressed) (h : kind ≠ .osc ∨ suppressed = true) (byte : UInt8) :
    s.emits byte = none := by
  have hno : ¬(kind = .osc ∧ suppressed = false) := by
    rintro ⟨hk, hsup⟩
    rcases h with h | h
    · exact h hk
    · rw [h] at hsup
      cases hsup
  unfold emits feed
  split
  · rfl
  rw [hs]
  dsimp only [feedString]
  split
  · rfl
  by_cases hend : (escape = true ∧ byte = backslash) ∨ (kind = .osc ∧ byte = bel)
  · rw [if_pos hend]
  · rw [if_neg hend]

/-- A command comes out of an OSC whose text counts. -/
theorem osc_of_command {s : Scanner} {byte : UInt8} {command : ProgramCommand}
    (h : s.emits byte = some (.command command)) : ∃ escape, s.state = .string .osc escape false := by
  have hescape : ∀ suppressed, (s.feedEscape suppressed byte).1 ≠ some (.command command) := fun suppressed h => by
    unfold feedEscape at h
    cases hi : StringKind.introducedBy byte with
    | some kind => simp [hi] at h
    | none =>
      rw [hi] at h
      dsimp only at h
      repeat' (first | cases h | split at h)
  have hemits := h
  unfold emits feed at h
  split at h
  · cases h
  cases hs : s.state with
  | ground => rw [hs] at h; cases h
  | escape => rw [hs] at h; exact absurd h (hescape false)
  | dirtyEscape => rw [hs] at h; exact absurd h (hescape true)
  | csi => rw [hs] at h; cases h
  | lost phase => rw [hs] at h; cases h
  | string kind escape suppressed =>
    cases suppressed with
    | true =>
      rw [emits_string hs (.inr rfl)] at hemits
      cases hemits
    | false =>
      by_cases hk : kind = .osc
      · exact ⟨escape, hk ▸ rfl⟩
      · rw [emits_string hs (.inl hk)] at hemits
        cases hemits

/-- **A byte.** If it completes a command, the bytes observed end in the command's frame. -/
theorem Framed.feed {s : Scanner} {seen : Bytes} (h : Framed s seen) (byte : UInt8) :
    Framed (s.next byte) (seen ++ [byte]) ∧ ∀ command, s.emits byte = some (.command command) →
      ∃ before frame, seen ++ [byte] = before ++ frame ∧ parseFrame frame = .ok (.command command) := by
  have hescape : (s.next byte).state = .escape → ∃ before, seen ++ [byte] = before ++ [esc] := fun he => by
    rw [next_state] at he
    exact ⟨seen, by rw [escape_of_step he]⟩
  by_cases hosc : ∃ escape, s.state = .string .osc escape false
  · obtain ⟨escape, hs⟩ := hosc
    have hstring : Traced (s.feedString .osc escape false byte).2 (seen ++ [byte]) ∧
        ∀ event, (s.feedString .osc escape false byte).1 = some event →
          ∃ before construct, seen ++ [byte] = before ++ construct ∧ Construct construct event :=
      Traced.feedString (fun _ _ => h.osc escape hs) (fun _ hsup => (by cases hsup)) byte
    obtain ⟨htraced, hevent⟩ := hstring
    by_cases hc : cancels s.state byte = true
    · have hnext : (s.next byte).state = .ground := by simp [next, Scanner.feed, hc]
      have hnone : s.emits byte = none := by simp [emits, Scanner.feed, hc]
      refine ⟨⟨hescape, fun _ ho => ?_⟩, fun command hcommand => ?_⟩
      · rw [hnext] at ho
        cases ho
      · rw [hnone] at hcommand
        cases hcommand
    · have hfeed : s.feed byte = s.feedString .osc escape false byte := by
        unfold Scanner.feed
        rw [if_neg hc, hs]
      unfold next emits
      rw [hfeed]
      refine ⟨htraced.framed, fun command hcommand => ?_⟩
      obtain ⟨before, frame, heq, hconstruct⟩ := hevent _ hcommand
      cases hconstruct with
      | command hparse => exact ⟨before, frame, heq, hparse⟩
  · refine ⟨⟨hescape, fun escape ho => ?_⟩, fun command hcommand => absurd (osc_of_command hcommand) hosc⟩
    -- The OSC was just introduced, by the ESC observed last.
    rw [next_state] at ho
    rcases osc_of_step ho with hs | ho
    · obtain ⟨before, rfl⟩ := h.escape hs
      have htraced : Traced (s.feedEscape false byte).2 (before ++ [esc] ++ [byte]) :=
        (Traced.feedEscape (endsEscape_esc before) (fun _ => ⟨before, rfl⟩) byte).1
      have hc : cancels s.state byte = false := by
        cases hcancel : cancels s.state byte with
        | false => rfl
        | true =>
          unfold State.step at ho
          rw [if_pos hcancel] at ho
          cases ho
      have hfeed : s.feed byte = s.feedEscape false byte := by
        unfold Scanner.feed
        rw [if_neg (by simp [hc]), hs]
      rw [← next_state] at ho
      unfold next at ho ⊢
      rw [hfeed] at ho ⊢
      exact htraced.osc escape ho
    · exact absurd ho hosc

omit [Base64] in
/-- After a boundary nothing is being read. -/
theorem framed_of_suppressed {s : Scanner} {seen : Bytes} (hescape : s.state = .escape → ∃ before, seen = before ++ [esc])
    (hsup : ∀ kind escape suppressed, s.state = .string kind escape suppressed → suppressed = true) : Framed s seen :=
  ⟨hescape, fun _ hs => absurd (hsup _ _ _ hs) Bool.false_ne_true⟩

omit [Base64] in
theorem suppressCandidate_string {s : Scanner} {kind : StringKind} {escape suppressed : Bool}
    (h : s.suppressCandidate.state = .string kind escape suppressed) :
    suppressed = true ∧ ∃ suppressed, s.state = .string kind escape suppressed := by
  cases hs : s.state with
  | string kind' escape' suppressed' =>
    simp only [suppressCandidate, hs, State.string.injEq] at h
    obtain ⟨rfl, rfl, rfl⟩ := h
    exact ⟨rfl, suppressed', rfl⟩
  | ground | escape | dirtyEscape | csi | lost phase => simp [suppressCandidate, hs] at h

omit [Base64] in
/-- What a boundary leaves of the state. -/
theorem boundary_state (s : Scanner) : s.boundary.state = s.suppressCandidate.state ∧ s.boundary.state ≠ .escape ∧
    s.boundary.state ≠ .dirtyEscape ∨
    (s.state = .escape ∨ s.state = .dirtyEscape) ∧ s.boundary.state = .lost .escape := by
  unfold boundary
  cases hs : s.state <;> simp [suppressCandidate, hs]

theorem framed_step {s : Scanner} {seen : Bytes} (h : Framed s seen) (op : ScannerOp) :
    Framed (s.step op) (op.observed seen) := by
  cases op with
  | feed byte => exact (h.feed byte).1
  | boundary =>
    refine framed_of_suppressed (fun he => ?_) fun kind escape suppressed hs => ?_
    · rcases boundary_state s with ⟨-, hne, -⟩ | ⟨-, hlost⟩
      · exact absurd he hne
      · exact absurd (he.symm.trans hlost) (by simp)
    · rcases boundary_state s with ⟨heq, -⟩ | ⟨-, hlost⟩
      · exact (suppressCandidate_string (heq ▸ hs)).1
      · exact absurd (hs.symm.trans hlost) (by simp)
  | loss => exact framed_of_suppressed (fun he => (by cases he)) fun _ _ _ hs => (by cases hs)
  | feedQuarantined byte =>
    refine framed_of_suppressed (fun he => ⟨[], ?_⟩) fun kind escape suppressed hs => (suppressCandidate_string hs).1
    have hstate : (s.next byte).state = .escape := by
      have he : (s.next byte).suppressCandidate.state = .escape := he
      cases hs : (s.next byte).state <;> simp [suppressCandidate, hs] at he ⊢
    rw [next_state] at hstate
    rw [escape_of_step hstate]
    rfl

omit [Base64] in
theorem framed_fresh (synchronized : Bool) : Framed (fresh synchronized) [] := by
  cases synchronized
  · exact ⟨fun h => (by cases h), fun _ h => (by cases h)⟩
  · exact ⟨fun h => (by cases h), fun _ h => (by cases h)⟩

theorem framed_run (synchronized : Bool) (ops : List ScannerOp) :
    Framed (Run.run step (fresh synchronized) ops) (observedSince ops) :=
  Run.run_related (fun s seen => Framed s seen) (fun _ _ op h => framed_step h op) (framed_fresh synchronized) ops

/-! ## Pending bytes -/

omit [Base64] in
theorem push_bounded {s : Scanner} (h : s.pendingBytes ≤ maxFrameBytes) (byte : UInt8) :
    (s.push byte).pendingBytes ≤ maxFrameBytes := by
  unfold push
  split
  · rename_i hlt
    rw [pendingBytes, List.length_append]
    exact hlt
  · exact h

theorem next_bounded {s : Scanner} (h : s.pendingBytes ≤ maxFrameBytes) (byte : UInt8) :
    (s.next byte).pendingBytes ≤ maxFrameBytes := by
  have hescape : ∀ suppressed, (s.feedEscape suppressed byte).2.pendingBytes ≤ maxFrameBytes := fun suppressed => by
    unfold feedEscape
    cases StringKind.introducedBy byte with
    | some kind => exact Nat.zero_le _
    | none => dsimp only; repeat' (first | exact h | split)
  unfold next feed
  split
  · exact Nat.zero_le _
  cases hs : s.state with
  | ground => dsimp only; split <;> exact h
  | escape => exact hescape false
  | dirtyEscape => exact hescape true
  | csi => dsimp only; repeat' (first | exact h | split)
  | lost phase => exact h
  | string kind escape suppressed =>
    dsimp only [feedString]
    split
    · exact Nat.zero_le _
    split
    · exact Nat.zero_le _
    · dsimp only [pendingBytes]
      split
      · exact push_bounded h byte
      · exact h

theorem pendingBytes_step {s : Scanner} (h : s.pendingBytes ≤ maxFrameBytes) (op : ScannerOp) :
    (s.step op).pendingBytes ≤ maxFrameBytes := by
  cases op with
  | feed byte => exact next_bounded h byte
  | boundary =>
    rw [step, pendingBytes_of_candidate (boundary_candidate s)]
    exact Nat.zero_le _
  | loss =>
    rw [step, pendingBytes_of_candidate (loss_candidate s)]
    exact Nat.zero_le _
  | feedQuarantined byte => exact Nat.zero_le _

/-! ## Quiet text -/

/-- A condition that no boundary, loss or quarantine takes away. -/
def Steady (P : Scanner → Prop) : Prop := ∀ s, P s → P s.boundary ∧ P s.loss ∧ P s.suppressCandidate

/-- The bytes take a scanner from `P` to `Q` without an event, whatever comes between them. -/
def Quiet (P : Scanner → Prop) (bytes : Bytes) (Q : Scanner → Prop) : Prop :=
  ∀ s ops, shownBytes ops = bytes → P s → Run.firings step answers s ops = [] ∧ Q (Run.run step s ops)

theorem Quiet.nil {P : Scanner → Prop} (hP : Steady P) : Quiet P [] P := by
  intro s ops hops hs
  induction ops generalizing s with
  | nil => exact ⟨rfl, hs⟩
  | cons op ops ih =>
    cases op with
    | feed byte => simp [ScannerOp.byte?] at hops
    | feedQuarantined byte => simp [ScannerOp.byte?] at hops
    | boundary => exact ih s.boundary hops (hP s hs).1
    | loss => exact ih s.loss hops (hP s hs).2.1

theorem Quiet.append {P Q R : Scanner → Prop} {a b : Bytes} (h₁ : Quiet P a Q) (h₂ : Quiet Q b R) :
    Quiet P (a ++ b) R := by
  intro s ops hops hs
  obtain ⟨ops₁, ops₂, rfl, hops₁, hops₂⟩ := List.filterMap_eq_append_iff.mp hops
  obtain ⟨hfirings₁, hQ⟩ := h₁ s ops₁ hops₁ hs
  obtain ⟨hfirings₂, hR⟩ := h₂ _ ops₂ hops₂ hQ
  rw [Run.firings_append, Run.run_append, hfirings₁, hfirings₂]
  exact ⟨rfl, hR⟩

theorem Quiet.byte {P Q : Scanner → Prop} (hP : Steady P) (hQ : Steady Q) {byte : UInt8}
    (h : ∀ s, P s → s.emits byte = none ∧ Q (s.next byte)) : Quiet P [byte] Q := by
  intro s ops hops hs
  obtain ⟨before, op, after, rfl, hbefore, hop, hafter⟩ := List.filterMap_eq_cons_iff.mp hops
  obtain ⟨hfirings, hrun⟩ := Quiet.nil hP s before (List.filterMap_eq_nil_iff.mpr hbefore) hs
  have hmid : answers (Run.run step s before) op = none ∧ Q (step (Run.run step s before) op) := by
    obtain ⟨hemits, hnext⟩ := h _ hrun
    cases op with
    | feed byte' =>
      obtain rfl := Option.some.inj hop
      exact ⟨hemits, hnext⟩
    | feedQuarantined byte' =>
      obtain rfl := Option.some.inj hop
      exact ⟨rfl, (hQ _ hnext).2.2⟩
    | boundary => cases hop
    | loss => cases hop
  obtain ⟨hfirings', hrun'⟩ := Quiet.nil hQ _ after hafter hmid.2
  rw [Run.firings_append, Run.run_append, Run.firings_cons, Run.run_cons, hfirings, hmid.1, hfirings']
  exact ⟨rfl, hrun'⟩

/-- Text that leaves a string open is quiet, if each of its bytes is. -/
theorem Quiet.text {P : StringKind × Bool → Scanner → Prop} (hP : ∀ q, Steady (P q))
    (h : ∀ q byte q', StringKind.read q byte = some q' → ∀ s, P q s → s.emits byte = none ∧ P q' (s.next byte))
    {text : Bytes} {q q' : StringKind × Bool} (hread : text.foldlM StringKind.read q = some q') :
    Quiet (P q) text (P q') := by
  induction text generalizing q with
  | nil =>
    obtain rfl := Option.some.inj hread
    exact Quiet.nil (hP q)
  | cons byte text ih =>
    rw [List.foldlM_cons, Option.bind_eq_bind, Option.bind_eq_some_iff] at hread
    obtain ⟨q₁, hbyte, hread⟩ := hread
    exact (Quiet.byte (hP q) (hP q₁) (h q byte q₁ hbyte)).append (ih hread)

/-! ## Strings that emit nothing -/

/-- In a string that can emit nothing, or lost in one. -/
def Mute (q : StringKind × Bool) (s : Scanner) : Prop :=
  (∃ suppressed, s.state = .string q.1 q.2 suppressed ∧ (q.1 ≠ .osc ∨ suppressed = true)) ∨
    ∃ phase, s.state = .lost phase ∧ (phase = .escape → q.2 = true) ∧ (q.1 = .dcs → phase = .data → q.2 = false)

omit [Base64] in
theorem mute_lost_unknown (q : StringKind × Bool) {s : Scanner} (h : s.state = .lost .unknown) : Mute q s :=
  .inr ⟨.unknown, h, fun hp => (by cases hp), fun _ hp => (by cases hp)⟩

omit [Base64] in
theorem mute_of_string {q : StringKind × Bool} {s : Scanner} {suppressed : Bool}
    (h : s.state = .string q.1 q.2 suppressed) : Mute q s.boundary ∧ Mute q s.loss ∧ Mute q s.suppressCandidate := by
  refine ⟨.inl ⟨true, ?_, .inr rfl⟩, mute_lost_unknown q rfl, .inl ⟨true, ?_, .inr rfl⟩⟩
  · simp [boundary, suppressCandidate, h]
  · simp [suppressCandidate, h]

omit [Base64] in
theorem mute_steady (q : StringKind × Bool) : Steady (Mute q) := by
  rintro s (⟨suppressed, hs, -⟩ | ⟨phase, hs, hesc, hdata⟩)
  · exact mute_of_string hs
  · refine ⟨.inr ⟨phase, ?_, hesc, hdata⟩, mute_lost_unknown q rfl, .inr ⟨phase, ?_, hesc, hdata⟩⟩
    · simp [boundary, suppressCandidate, hs]
    · simp [suppressCandidate, hs]

theorem mute_emits {q : StringKind × Bool} {s : Scanner} (h : Mute q s) (byte : UInt8) : s.emits byte = none := by
  rcases h with ⟨suppressed, hs, hmute⟩ | ⟨phase, hs, -⟩
  · exact emits_string hs hmute byte
  · exact emits_lost hs byte

omit [Base64] in
theorem read_of_ne {kind : StringKind} (h : kind ≠ .dcs) (escaped : Bool) (byte : UInt8) :
    StringKind.read (kind, escaped) byte =
      if byte = 0x18 ∨ byte = 0x1a ∨ (escaped = true ∧ byte = backslash) ∨ (kind = .osc ∧ byte = bel) then none
      else if escaped = true ∧ byte = 0x50 then some (.dcs, false)
      else some (kind, byte == esc || (escaped && escapeIgnored byte)) := by
  cases kind <;> first | exact absurd rfl h | rfl

omit [Base64] in
theorem cancels_string {kind : StringKind} (h : kind ≠ .dcs) (escaped suppressed : Bool) (byte : UInt8) :
    cancels (.string kind escaped suppressed) byte = (byte == 0x18 || byte == 0x1a) := by
  cases kind <;> first | exact absurd rfl h | exact Bool.and_true _

omit [Base64] in
/-- Text that leaves a string open keeps the scanner in it, or takes it into a DCS. -/
theorem step_of_read {kind : StringKind} {escaped : Bool} (suppressed : Bool) {byte : UInt8} {q : StringKind × Bool}
    (h : StringKind.read (kind, escaped) byte = some q) :
    ∃ suppressed', State.step (.string kind escaped suppressed) byte = .string q.1 q.2 suppressed' ∧
      (q.1 = kind ∧ suppressed' = suppressed ∨ kind ≠ .dcs ∧ q.1 = .dcs) := by
  by_cases hk : kind = .dcs
  · subst hk
    have hcancel : cancels (.string .dcs escaped suppressed) byte = false := Bool.and_false _
    have hp : ¬(StringKind.dcs ≠ .dcs ∧ escaped = true ∧ byte = 0x50) := fun hp => hp.1 rfl
    refine ⟨suppressed, ?_, .inl ⟨?_, rfl⟩⟩
    · unfold State.step State.stringStep
      rw [hcancel, if_neg Bool.false_ne_true]
      cases escaped with
      | true =>
        simp only [StringKind.read] at h
        split at h
        · cases h
        · rename_i hb
          obtain rfl := Option.some.inj h
          simp [hb]
      | false =>
        obtain rfl := Option.some.inj h
        simp
    · cases escaped with
      | true =>
        simp only [StringKind.read] at h
        split at h
        · cases h
        · exact (Option.some.inj h) ▸ rfl
      | false => exact (Option.some.inj h) ▸ rfl
  · rw [read_of_ne hk] at h
    split at h
    · cases h
    rename_i hend
    simp only [not_or] at hend
    have hcancel : cancels (.string kind escaped suppressed) byte = false := by
      rw [cancels_string hk]
      simp [hend.1, hend.2.1]
    unfold State.step State.stringStep
    rw [hcancel, if_neg Bool.false_ne_true]
    dsimp only
    split at h
    · rename_i hp
      obtain rfl := Option.some.inj h
      exact ⟨true, if_pos ⟨hk, hp⟩, .inr ⟨hk, rfl⟩⟩
    · rename_i hp
      obtain rfl := Option.some.inj h
      refine ⟨suppressed, ?_, .inl ⟨rfl, rfl⟩⟩
      rw [if_neg fun hand => hp hand.2, if_neg (not_or.mpr hend.2.2), if_neg hk]

omit [Base64] in
/-- A scanner lost in a string stays lost until the string ends. -/
theorem feedLost_of_read {q q' : StringKind × Bool} {byte : UInt8} (hread : StringKind.read q byte = some q')
    {phase : DcsPhase} (hesc : phase = .escape → q.2 = true) (hdata : q.1 = .dcs → phase = .data → q.2 = false) :
    ∃ phase', feedLost phase byte = .lost phase' ∧ (phase' = .escape → q'.2 = true) ∧
      (q'.1 = .dcs → phase' = .data → q'.2 = false) := by
  obtain ⟨kind, escaped⟩ := q
  -- What the read byte may be.
  have hback : escaped = true → byte ≠ backslash := by
    rintro rfl rfl
    cases kind <;> simp [StringKind.read] at hread
  have hopen : byte = esc → kind = .dcs ∧ q' = (.dcs, !escaped) ∨ kind ≠ .dcs ∧ q' = (kind, true) := by
    rintro rfl
    cases kind <;> cases escaped <;> simp [StringKind.read, esc, backslash, bel] at hread <;> simp [← hread]
  have hclosed : byte ≠ esc → q'.1 = .dcs → q'.2 = false := by
    intro hb hq
    by_cases hk : kind = .dcs
    · subst hk
      cases escaped with
      | true =>
        simp only [StringKind.read, if_neg (hback rfl)] at hread
        exact (Option.some.inj hread) ▸ rfl
      | false =>
        obtain rfl := Option.some.inj hread
        simpa using hb
    · rw [read_of_ne hk] at hread
      split at hread
      · cases hread
      split at hread
      · exact (Option.some.inj hread) ▸ rfl
      · obtain rfl := Option.some.inj hread
        exact absurd hq hk
  unfold feedLost
  by_cases hground : phase = .escape ∧ byte = backslash
  · exact absurd hground.2 (hback (hesc hground.1))
  rw [if_neg hground]
  by_cases hunknown : phase = .unknown ∧ byte = esc
  · rw [if_pos hunknown]
    exact ⟨.unknown, rfl, fun h => (by cases h), fun _ h => (by cases h)⟩
  rw [if_neg hunknown]
  by_cases hescape : phase = .data ∧ byte = esc
  · rw [if_pos hescape]
    refine ⟨.escape, rfl, fun _ => ?_, fun _ h => (by cases h)⟩
    rcases hopen hescape.2 with ⟨hk, rfl⟩ | ⟨-, rfl⟩
    · have hfalse : escaped = false := hdata hk hescape.1
      rw [hfalse]
      rfl
    · rfl
  rw [if_neg hescape]
  refine ⟨.data, rfl, fun h => (by cases h), fun hq _ => ?_⟩
  by_cases hb : byte = esc
  · -- An ESC after an ESC: a pair in a DCS, and no DCS otherwise.
    have hphase : phase = .escape := by
      cases phase with
      | unknown => exact absurd ⟨rfl, hb⟩ hunknown
      | data => exact absurd ⟨rfl, hb⟩ hescape
      | escape => rfl
    rcases hopen hb with ⟨-, rfl⟩ | ⟨hk, rfl⟩
    · have htrue : escaped = true := hesc hphase
      rw [htrue]
      rfl
    · exact absurd hq hk
  · exact hclosed hb hq

theorem mute_byte {q q' : StringKind × Bool} {byte : UInt8} (hread : StringKind.read q byte = some q') {s : Scanner}
    (h : Mute q s) : s.emits byte = none ∧ Mute q' (s.next byte) := by
  refine ⟨mute_emits h byte, ?_⟩
  rcases h with ⟨suppressed, hs, hmute⟩ | ⟨phase, hs, hesc, hdata⟩
  · obtain ⟨suppressed', hstep, hcase⟩ := step_of_read suppressed hread
    refine .inl ⟨suppressed', by rw [next_state, hs, hstep], ?_⟩
    rcases hcase with ⟨hk, rfl⟩ | ⟨-, hk⟩
    · rw [hk]
      exact hmute
    · rw [hk]
      exact .inl (by simp)
  · obtain ⟨phase', hlost, hesc', hdata'⟩ := feedLost_of_read hread hesc hdata
    have hcancel : cancels (.lost phase) byte = false := Bool.and_false _
    refine .inr ⟨phase', ?_, hesc', hdata'⟩
    rw [next_state, hs, State.step, hcancel, if_neg Bool.false_ne_true]
    exact hlost

/-! ## OSCs nested in an OSC -/

/-- In an OSC that may still emit, of which `P` holds, or mute. -/
def InOsc (P : Scanner → Prop) (q : StringKind × Bool) (s : Scanner) : Prop :=
  (q.1 = .osc ∧ s.state = .string .osc q.2 false ∧ P s) ∨ Mute q s

/-- The OSC's text has come to an ESC. -/
def AtEscape (s : Scanner) : Prop := s.oversized = true ∨ ∃ text, s.candidate = text ++ [esc]

/-- The OSC's text has gone past an ESC. -/
def Spoiled (s : Scanner) : Prop := s.oversized = true ∨ esc ∈ s.candidate.dropLast

omit [Base64] in
theorem inOsc_steady (P : Scanner → Prop) (q : StringKind × Bool) : Steady (InOsc P q) := by
  rintro s (⟨hq, hs, -⟩ | h)
  · obtain ⟨hb, hl, hc⟩ := mute_of_string (q := q) (hq ▸ hs)
    exact ⟨.inr hb, .inr hl, .inr hc⟩
  · obtain ⟨hb, hl, hc⟩ := mute_steady q s h
    exact ⟨.inr hb, .inr hl, .inr hc⟩

/-- Text of an OSC goes into its candidate. -/
theorem next_osc {s : Scanner} {escaped : Bool} (hs : s.state = .string .osc escaped false) {byte : UInt8}
    {q : StringKind × Bool} (hread : StringKind.read (.osc, escaped) byte = some q) :
    s.emits byte = none ∧ (q.1 = .osc → s.next byte = { s.push byte with state := .string .osc q.2 false }) := by
  have hne : StringKind.osc ≠ .dcs := by simp
  rw [read_of_ne hne] at hread
  split at hread
  · cases hread
  rename_i hend
  simp only [not_or] at hend
  have hcancel : cancels (.string .osc escaped false) byte = false := by
    rw [cancels_string hne]
    simp [hend.1, hend.2.1]
  unfold emits next feed
  rw [hs, hcancel, if_neg Bool.false_ne_true]
  dsimp only [feedString]
  split at hread
  · rename_i hp
    obtain rfl := Option.some.inj hread
    rw [if_pos ⟨hne, hp⟩]
    exact ⟨rfl, fun hq => (by cases hq)⟩
  · rename_i hp
    obtain rfl := Option.some.inj hread
    have hterminator : ¬((escaped = true ∧ byte = backslash) ∨ (StringKind.osc = .osc ∧ byte = bel)) := by
      rintro (hst | hbel)
      · exact hend.2.2.1 hst
      · exact hend.2.2.2 ⟨trivial, hbel.2⟩
    rw [if_neg fun hand => hp hand.2, if_neg hterminator, if_neg hne]
    exact ⟨rfl, fun _ => rfl⟩

/-- A byte that leaves the OSC open, with what pushing it does to the candidate. -/
theorem inOsc_byte {P P' : Scanner → Prop} {byte : UInt8}
    (hpush : ∀ s state, P s → P' { s.push byte with state }) {q q' : StringKind × Bool}
    (hread : StringKind.read q byte = some q') {s : Scanner} (h : InOsc P q s) :
    s.emits byte = none ∧ InOsc P' q' (s.next byte) := by
  rcases h with ⟨hq, hs, hP⟩ | h
  · obtain ⟨kind, escaped⟩ := q
    obtain rfl : kind = .osc := hq
    obtain ⟨hemits, hnext⟩ := next_osc hs hread
    refine ⟨hemits, ?_⟩
    obtain ⟨suppressed', hstep, ⟨hk, rfl⟩ | ⟨-, hk⟩⟩ := step_of_read false hread
    · refine .inl ⟨hk, ?_, ?_⟩
      · rw [next_state, hs, hstep, hk]
      · rw [hnext hk]
        exact hpush s _ hP
    · refine .inr (.inl ⟨suppressed', by rw [next_state, hs, hstep], .inl (by rw [hk]; simp)⟩)
  · obtain ⟨hemits, hmute⟩ := mute_byte hread h
    exact ⟨hemits, .inr hmute⟩

omit [Base64] in
theorem push_cases (s : Scanner) (byte : UInt8) : (s.push byte).oversized = true ∨
    (s.push byte).oversized = s.oversized ∧ (s.push byte).candidate = s.candidate ++ [byte] := by
  unfold push
  split
  · exact .inr ⟨rfl, rfl⟩
  · exact .inl rfl

/-- A candidate with an ESC in it makes no event. -/
theorem complete_none {s : Scanner} (h : s.oversized = true ∨ esc ∈ s.candidate) (st : Bool) :
    (s.complete st).1 = none := by
  cases hc : (s.complete st).1 with
  | none => rfl
  | some event =>
    exfalso
    obtain ⟨ho, hcases⟩ := complete_some hc
    have hmem : esc ∈ s.candidate := h.resolve_left (by simp [ho])
    rcases hcases with ⟨-, hesc, -⟩ | ⟨command, -, hparse⟩
    · exact hesc hmem
    · obtain ⟨-, body, terminator, heq, ht, hclean⟩ := parseFrame_shape hparse
      have hbody : esc ∉ framePrefix ++ body := by
        rw [List.mem_append, not_or]
        exact ⟨by decide, fun hb => (hclean esc hb).1 rfl⟩
      -- The terminators agree in their last byte, hence altogether.
      have hcandidate : s.candidate = framePrefix ++ body := by
        simp only [List.cons_append, List.cons.injEq, true_and, List.append_assoc] at heq
        rw [← List.append_assoc] at heq
        cases st with
        | true =>
          rcases ht with rfl | rfl
          · exact (List.append_inj' heq rfl).1
          · have hlast := congrArg List.reverse heq
            simp [backslash, bel] at hlast
        | false =>
          rcases ht with rfl | rfl
          · have hlast := congrArg List.reverse heq
            simp [backslash, bel] at hlast
          · exact (List.append_inj' heq rfl).1
      exact hbody (hcandidate ▸ hmem)

/-- A spoiled OSC emits nothing, at its terminator either. -/
theorem spoiled_emits {q : StringKind × Bool} {s : Scanner} (h : InOsc Spoiled q s) (byte : UInt8) :
    s.emits byte = none := by
  rcases h with ⟨-, hs, hspoiled⟩ | h
  · have hdrop : ({ s with candidate := s.candidate.dropLast } : Scanner).oversized = true ∨
        esc ∈ ({ s with candidate := s.candidate.dropLast } : Scanner).candidate := hspoiled
    have hwhole : s.oversized = true ∨ esc ∈ s.candidate := hspoiled.imp_right List.mem_of_mem_dropLast
    unfold emits feed
    split
    · rfl
    rw [hs]
    dsimp only [feedString]
    split
    · rfl
    split
    · rw [if_pos ⟨rfl, rfl⟩]
      dsimp only
      split
      · exact complete_none hdrop _
      · exact complete_none hwhole _
    · rfl
  · exact mute_emits h byte

/-! ## What opens a string -/

/-- After an ESC outside a string. -/
def Opened (s : Scanner) : Prop := s.state = .escape ∨ ∃ phase, s.state = .lost phase

/-- After an ESC and ignored bytes. -/
def Dirtied (s : Scanner) : Prop := s.state = .dirtyEscape ∨ ∃ phase, s.state = .lost phase

omit [Base64] in
theorem outside_steady : Steady OutsideString := by
  intro s hs
  cases hstate : s.state with
  | string kind escape suppressed => exact absurd hstate (hs kind escape suppressed)
  | ground | escape | dirtyEscape | csi | lost phase =>
    refine ⟨fun _ _ _ h => ?_, fun _ _ _ h => (by cases h), fun _ _ _ h => ?_⟩ <;>
      simp [boundary, suppressCandidate, hstate] at h

omit [Base64] in
theorem opened_steady : Steady Opened := by
  rintro s (hs | ⟨phase, hs⟩)
  · refine ⟨.inr ⟨.escape, ?_⟩, .inr ⟨.unknown, rfl⟩, .inl ?_⟩
    · simp [boundary, suppressCandidate, hs]
    · simp [suppressCandidate, hs]
  · refine ⟨.inr ⟨phase, ?_⟩, .inr ⟨.unknown, rfl⟩, .inr ⟨phase, ?_⟩⟩
    · simp [boundary, suppressCandidate, hs]
    · simp [suppressCandidate, hs]

omit [Base64] in
theorem dirtied_steady : Steady Dirtied := by
  rintro s (hs | ⟨phase, hs⟩)
  · refine ⟨.inr ⟨.escape, ?_⟩, .inr ⟨.unknown, rfl⟩, .inl ?_⟩
    · simp [boundary, suppressCandidate, hs]
    · simp [suppressCandidate, hs]
  · refine ⟨.inr ⟨phase, ?_⟩, .inr ⟨.unknown, rfl⟩, .inr ⟨phase, ?_⟩⟩
    · simp [boundary, suppressCandidate, hs]
    · simp [suppressCandidate, hs]

/-- Outside a string only ESC-c emits. -/
theorem emits_outside {s : Scanner} (h : OutsideString s) {byte : UInt8} (hb : byte ≠ 0x63) : s.emits byte = none := by
  have hescape : ∀ suppressed, (s.feedEscape suppressed byte).1 = none := fun suppressed => by
    unfold feedEscape
    cases StringKind.introducedBy byte with
    | some kind => rfl
    | none => dsimp only; repeat' (first | rfl | exact absurd ‹_› hb | split)
  unfold emits feed
  split
  · rfl
  cases hs : s.state with
  | ground => rfl
  | escape => exact hescape false
  | dirtyEscape => exact hescape true
  | csi => rfl
  | lost phase => rfl
  | string kind escape suppressed => exact absurd hs (h kind escape suppressed)

omit [Base64] in
theorem Opened.outside {s : Scanner} (h : Opened s) : OutsideString s := by
  rintro kind escape suppressed hs
  rcases h with h | ⟨phase, h⟩ <;> rw [hs] at h <;> cases h

omit [Base64] in
theorem Dirtied.outside {s : Scanner} (h : Dirtied s) : OutsideString s := by
  rintro kind escape suppressed hs
  rcases h with h | ⟨phase, h⟩ <;> rw [hs] at h <;> cases h

omit [Base64] in
/-- The six introducers. -/
theorem introducer_cases {intro : UInt8} {kind : StringKind} (h : StringKind.introducedBy intro = some kind) :
    (intro, kind) ∈ [(bracket, StringKind.osc), (0x50, .dcs), (0x5f, .apc), (0x5e, .pm), (0x6b, .rename), (0x58, .sos)] := by
  unfold StringKind.introducedBy at h
  repeat' split at h
  all_goals first
    | (rename_i hb; obtain rfl := Option.some.inj h; subst hb; decide)
    | cases h

omit [Base64] in
theorem step_introducer {intro : UInt8} {kind : StringKind} (h : StringKind.introducedBy intro = some kind) :
    State.step .escape intro = .string kind false false ∧ State.step .dirtyEscape intro = .string kind false true ∧
      intro ≠ 0x63 ∧ ∀ phase, State.step (.lost phase) intro = .lost .data := by
  have hcases := introducer_cases h
  simp only [List.mem_cons, Prod.mk.injEq, List.not_mem_nil, or_false] at hcases
  rcases hcases with ⟨rfl, rfl⟩ | ⟨rfl, rfl⟩ | ⟨rfl, rfl⟩ | ⟨rfl, rfl⟩ | ⟨rfl, rfl⟩ | ⟨rfl, rfl⟩ <;>
    exact ⟨by decide, by decide, by decide, fun phase => by cases phase <;> decide⟩

omit [Base64] in
theorem ne_of_ignored {byte other : UInt8} (h : escapeIgnored byte = true) (ho : escapeIgnored other = false) :
    byte ≠ other := by
  rintro rfl
  rw [h] at ho
  cases ho

omit [Base64] in
theorem step_ignored {byte : UInt8} (h : escapeIgnored byte = true) : State.step .escape byte = .dirtyEscape ∧
    State.step .dirtyEscape byte = .dirtyEscape ∧ byte ≠ 0x63 ∧ ∀ phase, State.step (.lost phase) byte = .lost .data := by
  have hcancel : ((byte == 0x18) || (byte == 0x1a)) = false := by
    rw [Bool.or_eq_false_iff, beq_eq_false_iff_ne, beq_eq_false_iff_ne]
    exact ⟨ne_of_ignored h (by decide), ne_of_ignored h (by decide)⟩
  have hintro : StringKind.introducedBy byte = none := by
    cases hi : StringKind.introducedBy byte with
    | none => rfl
    | some kind =>
      have hcases := introducer_cases hi
      simp only [List.mem_cons, Prod.mk.injEq, List.not_mem_nil, or_false] at hcases
      rcases hcases with ⟨rfl, -⟩ | ⟨rfl, -⟩ | ⟨rfl, -⟩ | ⟨rfl, -⟩ | ⟨rfl, -⟩ | ⟨rfl, -⟩ <;>
        exact absurd h (by decide)
  have hescape : ∀ suppressed, State.escapeStep suppressed byte = .dirtyEscape := fun suppressed => by
    unfold State.escapeStep
    rw [hintro]
    dsimp only
    rw [if_neg (ne_of_ignored h (by decide)), if_pos h]
  refine ⟨?_, ?_, ne_of_ignored h (by decide), fun phase => ?_⟩
  · simpa [State.step, cancels, hcancel] using hescape false
  · simpa [State.step, cancels, hcancel] using hescape true
  · have hback : byte ≠ backslash := ne_of_ignored h (by decide)
    have hesc : byte ≠ esc := ne_of_ignored h (by decide)
    simp [State.step, cancels, feedLost, hback, hesc]

theorem quiet_escape : Quiet OutsideString [esc] Opened := by
  refine Quiet.byte outside_steady opened_steady fun s hs => ⟨emits_outside hs (by decide), ?_⟩
  unfold Opened
  rw [next_state]
  cases hstate : s.state with
  | ground | escape | dirtyEscape | csi => exact .inl (by decide)
  | lost phase =>
    cases phase with
    | unknown => exact .inr ⟨.unknown, by decide⟩
    | data => exact .inr ⟨.escape, by decide⟩
    | escape => exact .inr ⟨.data, by decide⟩
  | string kind escape suppressed => exact absurd hstate (hs kind escape suppressed)

theorem quiet_introducer {intro : UInt8} {kind : StringKind} (h : StringKind.introducedBy intro = some kind)
    (hkind : kind ≠ .osc) : Quiet Opened [intro] (Mute (kind, false)) := by
  obtain ⟨hescape, -, hc, hlost⟩ := step_introducer h
  refine Quiet.byte opened_steady (mute_steady _) fun s hs => ⟨emits_outside hs.outside hc, ?_⟩
  rcases hs with hs | ⟨phase, hs⟩
  · exact .inl ⟨false, by rw [next_state, hs, hescape], .inl hkind⟩
  · exact .inr ⟨.data, by rw [next_state, hs, hlost], fun h => (by cases h), fun _ _ => rfl⟩

theorem quiet_dirtyIntroducer {intro : UInt8} {kind : StringKind} (h : StringKind.introducedBy intro = some kind) :
    Quiet Dirtied [intro] (Mute (kind, false)) := by
  obtain ⟨-, hdirty, hc, hlost⟩ := step_introducer h
  refine Quiet.byte dirtied_steady (mute_steady _) fun s hs => ⟨emits_outside hs.outside hc, ?_⟩
  rcases hs with hs | ⟨phase, hs⟩
  · exact .inl ⟨true, by rw [next_state, hs, hdirty], .inr rfl⟩
  · exact .inr ⟨.data, by rw [next_state, hs, hlost], fun h => (by cases h), fun _ _ => rfl⟩

theorem quiet_osc : Quiet Opened [bracket] (InOsc (fun _ => True) (.osc, false)) := by
  have hintro : StringKind.introducedBy bracket = some .osc := by decide
  obtain ⟨hescape, -, hc, hlost⟩ := step_introducer hintro
  refine Quiet.byte opened_steady (inOsc_steady _ _) fun s hs => ⟨emits_outside hs.outside hc, ?_⟩
  rcases hs with hs | ⟨phase, hs⟩
  · exact .inl ⟨rfl, by rw [next_state, hs, hescape], trivial⟩
  · exact .inr (.inr ⟨.data, by rw [next_state, hs, hlost], fun h => (by cases h), fun _ _ => rfl⟩)

theorem quiet_ignored {first : UInt8} {ignored : Bytes} (hfirst : escapeIgnored first = true)
    (hignored : ∀ byte ∈ ignored, escapeIgnored byte = true) : Quiet Opened (first :: ignored) Dirtied := by
  have hdirty : ∀ {byte}, escapeIgnored byte = true → Quiet Dirtied [byte] Dirtied := fun {byte} hb => by
    obtain ⟨-, hstep, hc, hlost⟩ := step_ignored hb
    refine Quiet.byte dirtied_steady dirtied_steady fun s hs => ⟨emits_outside hs.outside hc, ?_⟩
    rcases hs with hs | ⟨phase, hs⟩
    · exact .inl (by rw [next_state, hs, hstep])
    · exact .inr ⟨.data, by rw [next_state, hs, hlost]⟩
  have hrest : Quiet Dirtied ignored Dirtied := by
    clear hfirst
    induction ignored with
    | nil => exact Quiet.nil dirtied_steady
    | cons byte ignored ih =>
      exact (hdirty (hignored byte List.mem_cons_self)).append
        (ih fun b hb => hignored b (List.mem_cons_of_mem _ hb))
  have hopen : Quiet Opened [first] Dirtied := by
    obtain ⟨hstep, -, hc, hlost⟩ := step_ignored hfirst
    refine Quiet.byte opened_steady dirtied_steady fun s hs => ⟨emits_outside hs.outside hc, ?_⟩
    rcases hs with hs | ⟨phase, hs⟩
    · exact .inl (by rw [next_state, hs, hstep])
    · exact .inr ⟨.data, by rw [next_state, hs, hlost]⟩
  exact hopen.append hrest

theorem quiet_mute {kind : StringKind} {text : Bytes} (h : kind.LeavesOpen text) :
    ∃ q, Quiet (Mute (kind, false)) text (Mute q) := by
  obtain ⟨q, hread⟩ := Option.isSome_iff_exists.mp h
  exact ⟨q, Quiet.text mute_steady (fun _ _ _ hr _ hs => mute_byte hr hs) hread⟩

theorem quiet_nested {text inner : Bytes} (h : StringKind.osc.LeavesOpen (text ++ esc :: bracket :: inner)) :
    ∃ q, Quiet (InOsc (fun _ => True) (.osc, false)) (text ++ esc :: bracket :: inner) (InOsc Spoiled q) := by
  obtain ⟨q, hread⟩ := Option.isSome_iff_exists.mp h
  rw [List.foldlM_append, Option.bind_eq_bind, Option.bind_eq_some_iff] at hread
  obtain ⟨q₁, htext, hread⟩ := hread
  rw [List.foldlM_cons, Option.bind_eq_bind, Option.bind_eq_some_iff] at hread
  obtain ⟨q₂, hesc, hread⟩ := hread
  rw [List.foldlM_cons, Option.bind_eq_bind, Option.bind_eq_some_iff] at hread
  obtain ⟨q₃, hbracket, hinner⟩ := hread
  have hfirst : Quiet (InOsc (fun _ => True) (.osc, false)) text (InOsc (fun _ => True) q₁) :=
    Quiet.text (inOsc_steady _) (fun _ _ _ hr _ hs => inOsc_byte (fun _ _ _ => trivial) hr hs) htext
  have hatEscape : Quiet (InOsc (fun _ => True) q₁) [esc] (InOsc AtEscape q₂) := by
    refine Quiet.byte (inOsc_steady _ _) (inOsc_steady _ _) fun s hs => inOsc_byte (fun s _ _ => ?_) hesc hs
    rcases push_cases s esc with ho | ⟨-, hc⟩
    · exact .inl ho
    · exact .inr ⟨s.candidate, hc⟩
  have hpast : Quiet (InOsc AtEscape q₂) [bracket] (InOsc Spoiled q₃) := by
    refine Quiet.byte (inOsc_steady _ _) (inOsc_steady _ _) fun s hs => inOsc_byte (fun s _ hp => ?_) hbracket hs
    rcases push_cases s bracket with ho | ⟨ho, hc⟩
    · exact .inl ho
    rcases hp with hp | ⟨text, htext⟩
    · exact .inl (ho.trans hp)
    · refine .inr ?_
      change esc ∈ (s.push bracket).candidate.dropLast
      rw [hc, List.dropLast_concat, htext]
      simp
  have hrest : Quiet (InOsc Spoiled q₃) inner (InOsc Spoiled q) := by
    refine Quiet.text (inOsc_steady _) (fun _ byte _ hr _ hs => inOsc_byte (fun s _ hp => ?_) hr hs) hinner
    rcases push_cases s byte with ho | ⟨ho, hc⟩
    · exact .inl ho
    rcases hp with hp | hp
    · exact .inl (ho.trans hp)
    · refine .inr ?_
      change esc ∈ (s.push byte).candidate.dropLast
      rw [hc, List.dropLast_concat]
      exact List.mem_of_mem_dropLast hp
  exact ⟨q, hfirst.append (hatEscape.append (hpast.append hrest))⟩

/-- **Opaque text is quiet**, and so is the byte after it, the terminator of its string included. -/
theorem opaque_quiet {text : Bytes} (h : Opaque text) :
    ∃ Q, Quiet OutsideString text Q ∧ ∀ s, Q s → ∀ byte, s.emits byte = none := by
  cases h with
  | string hintro hkind hopen =>
    obtain ⟨q, hmute⟩ := quiet_mute hopen
    exact ⟨Mute q, quiet_escape.append ((quiet_introducer hintro hkind).append hmute), fun _ hs => mute_emits hs⟩
  | dirty hintro hfirst hignored hopen =>
    obtain ⟨q, hmute⟩ := quiet_mute hopen
    exact ⟨Mute q, quiet_escape.append ((quiet_ignored hfirst hignored).append
      ((quiet_dirtyIntroducer hintro).append hmute)), fun _ hs => mute_emits hs⟩
  | nested hopen =>
    obtain ⟨q, hnested⟩ := quiet_nested hopen
    exact ⟨InOsc Spoiled q, quiet_escape.append (quiet_osc.append hnested), fun _ hs => spoiled_emits hs⟩

/-- **Whole, contiguous frames.** After any calls, a command that a byte completes is that of a frame
within the cap, without an ESC or BEL inside, that ends the bytes fed since the last boundary, loss or
quarantined byte; its ESC alone may be that quarantined byte. Opaque text read outside a string emits
nothing, whatever calls come between its bytes, nor does the byte after it. No more than a frame is
ever pending. -/
theorem scanner_frames (synchronized : Bool) (ops : List ScannerOp) :
    (∀ byte command, answers (Run.run step (fresh synchronized) ops) (.feed byte) = some (.command command) →
      ∃ before body terminator,
        observedSince ops ++ [byte] = before ++ (esc :: bracket :: body ++ terminator) ∧
        (terminator = [esc, backslash] ∨ terminator = [bel]) ∧ (∀ b ∈ body, b ≠ esc ∧ b ≠ bel) ∧
        (esc :: bracket :: body ++ terminator).length ≤ maxFrameBytes ∧
        parseFrame (esc :: bracket :: body ++ terminator) = .ok (.command command)) ∧
    (OutsideString (Run.run step (fresh synchronized) ops) → ∀ text, Opaque text → ∀ more, shownBytes more = text →
      ∀ byte, Run.firings step answers (Run.run step (fresh synchronized) ops) (more ++ [.feed byte]) = []) ∧
    (Run.run step (fresh synchronized) ops).pendingBytes ≤ maxFrameBytes := by
  refine ⟨fun byte command h => ?_, fun houtside text htext more hmore byte => ?_, ?_⟩
  · obtain ⟨before, frame, heq, hparse⟩ := ((framed_run synchronized ops).feed byte).2 command h
    obtain ⟨hlength, body, terminator, rfl, ht, hclean⟩ := parseFrame_shape hparse
    refine ⟨before, framePrefix ++ body, terminator, by simpa using heq, ht, fun b hb => ?_, by simpa using hlength,
      by simpa using hparse⟩
    rcases List.mem_append.mp hb with hb | hb
    · exact ⟨fun heq => absurd (heq ▸ hb) (by decide), fun heq => absurd (heq ▸ hb) (by decide)⟩
    · exact hclean b hb
  · obtain ⟨Q, hquiet, hlast⟩ := opaque_quiet htext
    obtain ⟨hfirings, hQ⟩ := hquiet _ more hmore houtside
    rw [Run.firings_append, hfirings]
    simp [answers, hlast _ hQ byte]
  · refine Run.invariant step (fun s => s.pendingBytes ≤ maxFrameBytes) (fun _ op h => pendingBytes_step h op) ?_ ops
    cases synchronized <;> exact Nat.zero_le _

omit [Base64] in
/-- Neither half of a stricter reading holds. A quarantined ESC begins a query whose other bytes are
fed: no ESC was fed since. And the byte after an ESC and an ignored byte may be a full reset. -/
theorem quarantined_escape_and_dirty_reset :
    (@answers noBase64 (Run.run (@step noBase64) (fresh true)
        (.feedQuarantined esc :: (bracket :: framePrefix ++ [0x3f]).map .feed)) (.feed bel) = some (.command .query) ∧
      esc ∉ fedSince (.feedQuarantined esc :: (bracket :: framePrefix ++ [0x3f]).map .feed) ++ [bel]) ∧
    @answers noBase64 (Run.run (@step noBase64) (fresh true) [.feed esc, .feed 0x00]) (.feed 0x63) =
      some (.lifecycle .fullReset) := by
  decide

end Scanner

end TmuxAgents
