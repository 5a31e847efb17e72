/-
Resynchronisation: a scanner that lost track of its stream never reaches
ground before the scanner that did not.

The state of a scanner moves by its own (`State.step`); the candidate only
decides what an OSC emits. Each lost phase stands for the states the stream
may really be in (`DcsPhase.covers`): anything, anything but a DCS after an
unpaired ESC, or a state an ESC-backslash grounds. A byte keeps that, or
grounds both.
-/
import TmuxAgents.Control.Terminal

namespace TmuxAgents

/-! ## The state without the candidate -/

namespace State

def escapeStep (suppressed : Bool) (byte : UInt8) : State :=
  match StringKind.introducedBy byte with
  | some kind => .string kind false suppressed
  | none =>
    if byte = 0x5b then .csi
    else if escapeIgnored byte then .dirtyEscape
    else if byte = esc then .escape
    else .ground

def stringStep (kind : StringKind) (escaped suppressed : Bool) (byte : UInt8) : State :=
  if kind ≠ .dcs ∧ escaped = true ∧ byte = 0x50 then .string .dcs false true
  else if (escaped = true ∧ byte = backslash) ∨ (kind = .osc ∧ byte = bel) then
    if escaped && !(escaped && byte == backslash) then .dirtyEscape else .ground
  else
    .string kind
      (if kind = .dcs then byte == esc && !escaped else byte == esc || (escaped && escapeIgnored byte)) suppressed

/-- The state after a byte. -/
def step (state : State) (byte : UInt8) : State :=
  if Scanner.cancels state byte then .ground
  else
    match state with
    | .ground => if byte = esc then .escape else .ground
    | .escape => escapeStep false byte
    | .dirtyEscape => escapeStep true byte
    | .csi => if 0x40 ≤ byte ∧ byte ≤ 0x7e then .ground else if byte = esc then .escape else .csi
    | .string kind escaped suppressed => stringStep kind escaped suppressed byte
    | .lost phase => Scanner.feedLost phase byte

end State

namespace Scanner

@[simp] theorem push_state (s : Scanner) (byte : UInt8) : (s.push byte).state = s.state := by
  unfold push
  split <;> rfl

theorem feedEscape_state (s : Scanner) (suppressed : Bool) (byte : UInt8) :
    (s.feedEscape suppressed byte).2.state = State.escapeStep suppressed byte := by
  unfold feedEscape State.escapeStep
  cases StringKind.introducedBy byte with
  | some kind => rfl
  | none =>
    dsimp only
    repeat' (first | rfl | split)

section

variable [Base64]

theorem feedString_state (s : Scanner) (kind : StringKind) (escape suppressed : Bool) (byte : UInt8) :
    (s.feedString kind escape suppressed byte).2.state = State.stringStep kind escape suppressed byte := by
  unfold feedString State.stringStep
  split
  · rfl
  · split <;> rfl

theorem next_state (s : Scanner) (byte : UInt8) : (s.next byte).state = s.state.step byte := by
  unfold next feed State.step
  split
  · rfl
  · cases hs : s.state with
    | ground => dsimp only; split <;> simp [hs]
    | escape => exact feedEscape_state s false byte
    | dirtyEscape => exact feedEscape_state s true byte
    | csi =>
      dsimp only
      split
      · rfl
      · split <;> simp [hs]
    | string kind escape suppressed => exact feedString_state s kind escape suppressed byte
    | lost phase => rfl

/-- A lost scanner emits nothing. -/
theorem emits_lost {s : Scanner} {phase : DcsPhase} (h : s.state = .lost phase) (byte : UInt8) :
    s.emits byte = none := by
  have hc : cancels (.lost phase) byte = false := Bool.and_false _
  simp [emits, feed, h, hc]

end

end Scanner

/-! ## What a lost phase stands for -/

/-- The states a stream may be in while the scanner only knows the phase. -/
def DcsPhase.covers : DcsPhase → State → Prop
  | _, .lost _ => False
  | .unknown, _ => True
  | .data, .string .dcs true _ => False
  | .data, _ => True
  | .escape, .escape | .escape, .dirtyEscape | .escape, .string _ true _ => True
  | .escape, _ => False

theorem DcsPhase.covers_data {state : State} :
    DcsPhase.covers .data state ↔ (∀ phase, state ≠ .lost phase) ∧ ∀ suppressed, state ≠ .string .dcs true suppressed := by
  cases state with
  | string kind escape suppressed => cases kind <;> cases escape <;> simp [covers]
  | ground | escape | dirtyEscape | csi | lost _ => simp [covers]

theorem DcsPhase.covers_unknown {state : State} :
    DcsPhase.covers .unknown state ↔ ∀ phase, state ≠ .lost phase := by
  cases state <;> simp [covers]

theorem DcsPhase.covers_escape {state : State} : DcsPhase.covers .escape state ↔
    state = .escape ∨ state = .dirtyEscape ∨ ∃ kind suppressed, state = .string kind true suppressed := by
  cases state with
  | string kind escape suppressed => cases escape <;> simp [covers]
  | ground | escape | dirtyEscape | csi | lost _ => simp [covers]

theorem State.escapeStep_ne_lost (suppressed : Bool) (byte : UInt8) (phase : DcsPhase) :
    escapeStep suppressed byte ≠ .lost phase := by
  unfold escapeStep
  cases StringKind.introducedBy byte with
  | some kind => simp
  | none => dsimp only; repeat' (first | (intro h; cases h) | split)

theorem State.stringStep_ne_lost (kind : StringKind) (escape suppressed : Bool) (byte : UInt8) (phase : DcsPhase) :
    stringStep kind escape suppressed byte ≠ .lost phase := by
  unfold stringStep
  repeat' (first | (intro h; cases h) | split)

/-- A synchronised state stays synchronised. -/
theorem State.step_ne_lost {state : State} (h : ∀ phase, state ≠ .lost phase) (byte : UInt8) (phase : DcsPhase) :
    state.step byte ≠ .lost phase := by
  unfold step
  split
  · simp
  cases state with
  | ground => dsimp only; split <;> simp
  | escape => exact escapeStep_ne_lost false byte phase
  | dirtyEscape => exact escapeStep_ne_lost true byte phase
  | csi => dsimp only; repeat' (first | (intro h; cases h) | split)
  | string kind escape suppressed => exact stringStep_ne_lost kind escape suppressed byte phase
  | lost phase' => exact absurd rfl (h phase')

theorem State.escapeStep_ne_dcsEscape (suppressed' suppressed : Bool) (byte : UInt8) :
    escapeStep suppressed' byte ≠ .string .dcs true suppressed := by
  unfold escapeStep
  cases StringKind.introducedBy byte with
  | some kind => simp
  | none => dsimp only; repeat' (first | (intro h; cases h) | split)

/-- Only an ESC puts a DCS after an ESC, and then it was not after one. -/
theorem State.step_dcsEscape {state : State} {byte : UInt8} {suppressed : Bool}
    (h : state.step byte = .string .dcs true suppressed) :
    byte = esc ∧ state = .string .dcs false suppressed := by
  unfold step at h
  split at h
  · cases h
  cases state with
  | ground => dsimp only at h; split at h <;> cases h
  | escape => exact absurd h (escapeStep_ne_dcsEscape false suppressed byte)
  | dirtyEscape => exact absurd h (escapeStep_ne_dcsEscape true suppressed byte)
  | csi =>
    dsimp only at h
    split at h
    · cases h
    · split at h <;> cases h
  | lost phase =>
    dsimp only [Scanner.feedLost] at h
    repeat' (first | cases h | split at h)
  | string kind escape suppressed' =>
    dsimp only [stringStep] at h
    split at h
    · cases h
    · split at h
      · split at h <;> cases h
      · simp only [State.string.injEq] at h
        obtain ⟨rfl, he, rfl⟩ := h
        simpa using he

/-- After an ESC that is no second half of a pair, an ESC-backslash would ground the stream. -/
theorem DcsPhase.covers_escape_of_esc {state : State} (h : DcsPhase.covers .data state) :
    DcsPhase.covers .escape (state.step esc) := by
  cases state with
  | ground | escape | dirtyEscape | csi => exact True.intro
  | lost phase => exact h.elim
  | string kind escaped suppressed =>
    cases kind <;> cases escaped <;> first | exact True.intro | exact h.elim

/-- A backslash grounds what an escape phase stands for. -/
theorem DcsPhase.ground_of_backslash {state : State} (h : DcsPhase.covers .escape state) :
    state.step backslash = .ground := by
  rcases covers_escape.mp h with rfl | rfl | ⟨kind, suppressed, rfl⟩
  · decide
  · decide
  · cases kind <;> cases suppressed <;> decide

/-- **One byte.** A lost scanner's next phase stands for the stream's next state, and the
scanner grounds only with the stream. -/
theorem DcsPhase.covers_step {phase : DcsPhase} {state : State} (h : phase.covers state) (byte : UInt8) :
    (Scanner.feedLost phase byte = .ground ∧ state.step byte = .ground) ∨
      ∃ phase', Scanner.feedLost phase byte = .lost phase' ∧ phase'.covers (state.step byte) := by
  have hsync : ∀ phase', state ≠ .lost phase' := by
    rintro phase' rfl
    cases phase <;> exact h
  have hsync' := State.step_ne_lost hsync byte
  by_cases hback : phase = .escape ∧ byte = backslash
  · obtain ⟨rfl, rfl⟩ := hback
    exact .inl ⟨by decide, ground_of_backslash h⟩
  right
  by_cases hunknown : phase = .unknown ∧ byte = esc
  · obtain ⟨rfl, rfl⟩ := hunknown
    exact ⟨.unknown, by decide, covers_unknown.mpr hsync'⟩
  by_cases hdata : phase = .data ∧ byte = esc
  · obtain ⟨rfl, rfl⟩ := hdata
    exact ⟨.escape, by decide, covers_escape_of_esc h⟩
  refine ⟨.data, by simp [Scanner.feedLost, hback, hunknown, hdata], covers_data.mpr ⟨hsync', fun suppressed hd => ?_⟩⟩
  -- A DCS after an ESC: the byte was that ESC, so the phase was an escape, which no such state has.
  obtain ⟨rfl, rfl⟩ := State.step_dcsEscape hd
  cases phase with
  | unknown => exact hunknown ⟨rfl, rfl⟩
  | data => exact hdata ⟨rfl, rfl⟩
  | escape => exact h

/-! ## Scanners that agree -/

namespace Scanner

/-- Two scanners that the same bytes take to the same events. -/
structure Agree (a b : Scanner) : Prop where
  state : a.state = b.state
  candidate : ∀ escape, b.state = .string .osc escape false → a.candidate = b.candidate ∧ a.oversized = b.oversized

theorem agree_of_ground {a b : Scanner} (ha : a.state = .ground) (hb : b.state = .ground) : Agree a b :=
  ⟨ha.trans hb.symm, fun escape h => by rw [hb] at h; cases h⟩

/-- The lost scanner's phase stands for the other's state, or they agree. -/
def Trails (l s : Scanner) : Prop := (∃ phase, l.state = .lost phase ∧ phase.covers s.state) ∨ Agree l s

/-- What `l` may have been created from while the stream was in `s`'s state: a loss or an
attach in any synchronised state, or a boundary inside an escape. -/
def LostTrackOf (l s : Scanner) : Prop :=
  (l = unsynchronized ∨ ∃ before : Scanner, l = before.loss) ∧ (∀ phase, s.state ≠ .lost phase) ∨
    (∃ before : Scanner, (before.state = .escape ∨ before.state = .dirtyEscape) ∧ l = before.boundary) ∧
      (s.state = .escape ∨ s.state = .dirtyEscape)

theorem trails_of_lostTrackOf {l s : Scanner} (h : LostTrackOf l s) : Trails l s := by
  rcases h with ⟨hl, hs⟩ | ⟨⟨before, hb, rfl⟩, hs⟩
  · refine .inl ⟨.unknown, ?_, DcsPhase.covers_unknown.mpr hs⟩
    rcases hl with rfl | ⟨before, rfl⟩ <;> rfl
  · refine .inl ⟨.escape, ?_, DcsPhase.covers_escape.mpr ?_⟩
    · rcases hb with hb | hb <;> simp [boundary, suppressCandidate, hb]
    · rcases hs with hs | hs
      · exact .inl hs
      · exact .inr (.inl hs)

theorem agree_feedEscape {a b : Scanner} (suppressed : Bool) (byte : UInt8) :
    (a.feedEscape suppressed byte).1 = (b.feedEscape suppressed byte).1 ∧
      Agree (a.feedEscape suppressed byte).2 (b.feedEscape suppressed byte).2 := by
  refine ⟨?_, (feedEscape_state a ..).trans (feedEscape_state b ..).symm, fun escape h => ?_⟩
  · unfold feedEscape
    repeat' (first | rfl | split)
  · rw [feedEscape_state] at h
    unfold feedEscape
    cases hi : StringKind.introducedBy byte with
    | some kind => exact ⟨rfl, rfl⟩
    | none =>
      simp only [State.escapeStep, hi] at h
      repeat' (first | cases h | split at h)

section

variable [Base64]

theorem complete_congr {a b : Scanner} (hc : a.candidate = b.candidate) (ho : a.oversized = b.oversized)
    (st : Bool) : (a.complete st).1 = (b.complete st).1 := by
  unfold complete
  rw [hc, ho]
  split
  · rfl
  split
  · rfl
  generalize (if st = true then 4 else 3) = terminator
  generalize (if st = true then [esc, backslash] else [bel]) = ending
  split
  · rfl
  · dsimp only
    generalize parseFrame _ = outcome
    rcases outcome with _ | ⟨_ | _⟩ <;> rfl

theorem agree_feedString {a b : Scanner} (kind : StringKind) (escape suppressed : Bool) (byte : UInt8)
    (h : kind = .osc → suppressed = false → a.candidate = b.candidate ∧ a.oversized = b.oversized) :
    (a.feedString kind escape suppressed byte).1 = (b.feedString kind escape suppressed byte).1 ∧
      Agree (a.feedString kind escape suppressed byte).2 (b.feedString kind escape suppressed byte).2 := by
  refine ⟨?_, (feedString_state a ..).trans (feedString_state b ..).symm, fun escape' hs => ?_⟩
  · unfold feedString
    split
    · rfl
    · split
      · dsimp only
        split
        · rename_i hosc
          obtain ⟨hc, ho⟩ := h hosc.1 hosc.2
          refine complete_congr ?_ ?_ _
          · split
            · simp [hc]
            · exact hc
          · split <;> exact ho
        · rfl
      · rfl
  · rw [feedString_state] at hs
    unfold feedString
    unfold State.stringStep at hs
    split at hs
    · cases hs
    · rename_i h₁
      rw [if_neg h₁, if_neg h₁]
      split at hs
      · split at hs <;> cases hs
      · rename_i h₂
        rw [if_neg h₂, if_neg h₂]
        simp only [State.string.injEq] at hs
        obtain ⟨rfl, -, rfl⟩ := hs
        obtain ⟨hc, ho⟩ := h rfl rfl
        simp only [push, hc, ho, and_self, if_true]
        split <;> exact ⟨rfl, rfl⟩

/-- Agreeing scanners emit the same on a byte, and still agree. -/
theorem Agree.feed {a b : Scanner} (h : Agree a b) (byte : UInt8) :
    a.emits byte = b.emits byte ∧ Agree (a.next byte) (b.next byte) := by
  obtain ⟨hstate, hcand⟩ := h
  unfold emits next Scanner.feed
  rw [hstate]
  split
  · exact ⟨rfl, agree_of_ground rfl rfl⟩
  cases hs : b.state with
  | ground =>
    refine ⟨rfl, ?_⟩
    dsimp only
    split
    · exact ⟨rfl, fun escape h => by cases h⟩
    · exact agree_of_ground (hstate.trans hs) hs
  | escape => exact agree_feedEscape false byte
  | dirtyEscape => exact agree_feedEscape true byte
  | csi =>
    refine ⟨rfl, ?_⟩
    dsimp only
    split
    · exact agree_of_ground rfl rfl
    · split
      · exact ⟨rfl, fun escape h => by cases h⟩
      · exact ⟨hstate, fun escape h => by rw [hs] at h; cases h⟩
  | string kind escape suppressed =>
    refine agree_feedString kind escape suppressed byte fun hk hsup => ?_
    subst hk hsup
    exact hcand escape hs
  | lost phase => exact ⟨rfl, rfl, fun escape h => by
      have : ∀ phase byte, feedLost phase byte ≠ .string .osc escape false := fun phase byte => by
        unfold feedLost
        repeat' (first | (intro h; cases h) | split)
      exact absurd h (this phase byte)⟩

theorem Trails.feed {l s : Scanner} (h : Trails l s) (byte : UInt8) :
    (l.emits byte = none ∨ l.emits byte = s.emits byte) ∧ Trails (l.next byte) (s.next byte) := by
  rcases h with ⟨phase, hl, hc⟩ | h
  · refine ⟨.inl (emits_lost hl byte), ?_⟩
    have hnext : (l.next byte).state = feedLost phase byte := by
      rw [next_state, hl]
      have : cancels (.lost phase) byte = false := Bool.and_false _
      simp [State.step, this]
    rcases DcsPhase.covers_step hc byte with ⟨hg, hsg⟩ | ⟨phase', hp, hc'⟩
    · exact .inr (agree_of_ground (hnext.trans hg) ((next_state s byte).trans hsg))
    · exact .inl ⟨phase', hnext.trans hp, by rw [next_state]; exact hc'⟩
  · exact ⟨.inr (h.feed byte).1, .inr (h.feed byte).2⟩

theorem Trails.after {l s : Scanner} (h : Trails l s) (bytes : Bytes) : Trails (l.after bytes) (s.after bytes) :=
  Run.run_related Trails (fun _ _ byte h => (h.feed byte).2) h bytes

/-- **Resynchronisation.** Whatever synchronised state the stream was in, a scanner that lost
track grounds only where the stream does, and from there emits exactly what a scanner that
saw everything emits; at no byte does it emit anything else. -/
theorem resynchronises {l s : Scanner} (h : LostTrackOf l s) :
    (∀ w, (l.after w).state = .ground → (s.after w).state = .ground ∧
      ∀ continuation, (l.after w).events continuation = (s.after w).events continuation) ∧
    ∀ w byte event, (l.after w).emits byte = some event → (s.after w).emits byte = some event := by
  have htrails := trails_of_lostTrackOf h
  refine ⟨fun w hg => ?_, fun w byte event he => ?_⟩
  · rcases htrails.after w with ⟨phase, hl, -⟩ | hagree
    · rw [hg] at hl
      cases hl
    · exact ⟨hagree.state.symm.trans hg, fun continuation =>
        Run.firings_related Agree (fun _ _ byte h => h.feed byte) hagree continuation⟩
  · rcases ((htrails.after w).feed byte).1 with hn | heq
    · rw [hn] at he
      cases he
    · rw [← heq]
      exact he

end

/-- A DCS was open, after the first ESC of a pair, when the scanner attached; a prompt mark
follows its terminator. -/
theorem resynchronises_sample :
    let s : Scanner := { state := .string .dcs true false }
    let w : Bytes := [esc, backslash, 0x61, esc, backslash]
    let prompt : Bytes := esc :: bracket :: promptMark ++ [bel]
    (@after noBase64 s w).state = .ground ∧
      @events noBase64 (@after noBase64 unsynchronized w) prompt = [.lifecycle .shellPrompt] := by
  have h := (@resynchronises noBase64 unsynchronized { state := .string .dcs true false }
    (.inl ⟨.inl rfl, fun phase => by simp⟩)).1 [esc, backslash, 0x61, esc, backslash] (by decide)
  refine ⟨h.1, ?_⟩
  rw [h.2]
  decide

end Scanner

end TmuxAgents
