/-
What an emitted event is made of: a construct, from its introducing ESC to its
terminator, at the end of the bytes fed (`Traced.feed`).

`Traced` relates a scanner to the bytes fed since it was settled, that is in a
state that remembers no ESC (`Settled`). A boundary settles every scanner but one
that is inside an OSC with an ESC pending (`midEscape`).
-/
import TmuxAgents.Control.Resync

namespace TmuxAgents

/-- An OSC frame or an ESC-c, and the event it produces. -/
inductive Construct [Base64] : Bytes → ProgramEvent → Prop
  | reset {ignored : Bytes} (h : ∀ byte ∈ ignored, escapeIgnored byte = true) :
    Construct (esc :: ignored ++ [0x63]) (.lifecycle .fullReset)
  | prompt {body terminator : Bytes} (hbody : body = promptMark ∨ promptMark ++ [0x3b] <+: body) (hesc : esc ∉ body)
    (ht : terminator = [esc, backslash] ∨ terminator = [bel]) :
    Construct (esc :: bracket :: body ++ terminator) (.lifecycle .shellPrompt)
  | command {frame : Bytes} {command : ProgramCommand} (h : parseFrame frame = .ok (.command command)) :
    Construct frame (.command command)

/-- A construct begins with its ESC. -/
theorem Construct.head [Base64] {bytes : Bytes} {event : ProgramEvent} (h : Construct bytes event) :
    ∃ rest, bytes = esc :: rest := by
  cases h with
  | reset h => exact ⟨_, rfl⟩
  | prompt hbody hesc ht => exact ⟨_, rfl⟩
  | command h =>
    obtain ⟨-, body, terminator, rfl, -⟩ := parseFrame_shape h
    exact ⟨_, rfl⟩

namespace Scanner

/-- Inside an OSC, after an ESC. -/
def midEscape (s : Scanner) : Bool :=
  match s.state with
  | .string .osc true _ => true
  | _ => false

/-- The bytes end in an ESC and bytes that leave open what it introduces. -/
def EndsEscape (bytes : Bytes) : Prop :=
  ∃ before ignored, bytes = before ++ esc :: ignored ∧ ∀ byte ∈ ignored, escapeIgnored byte = true

theorem endsEscape_esc (bytes : Bytes) : EndsEscape (bytes ++ [esc]) := ⟨bytes, [], rfl, fun _ h => (by cases h)⟩

theorem EndsEscape.ignore {bytes : Bytes} (h : EndsEscape bytes) {byte : UInt8} (hb : escapeIgnored byte = true) :
    EndsEscape (bytes ++ [byte]) := by
  obtain ⟨before, ignored, rfl, hi⟩ := h
  refine ⟨before, ignored ++ [byte], by simp, fun b hmem => ?_⟩
  rcases List.mem_append.mp hmem with hmem | hmem
  · exact hi b hmem
  · rwa [List.mem_singleton.mp hmem]

theorem EndsEscape.append {bytes : Bytes} (h : EndsEscape bytes) (before : Bytes) : EndsEscape (before ++ bytes) := by
  obtain ⟨first, ignored, rfl, hi⟩ := h
  exact ⟨before ++ first, ignored, by simp, hi⟩

/-- What the bytes fed so far must end in, for the scanner to be in its state. -/
structure Traced (s : Scanner) (fed : Bytes) : Prop where
  escape : s.state = .escape → ∃ before, fed = before ++ [esc]
  dirty : s.state = .dirtyEscape → EndsEscape fed
  osc : ∀ escape, s.state = .string .osc escape false → ∃ before body, fed = before ++ esc :: bracket :: body ∧
    (s.oversized = false → s.candidate = body) ∧ (escape = true → EndsEscape body)
  suppressed : s.state = .string .osc true true → EndsEscape fed

/-- A state that remembers no ESC. -/
structure Settled (s : Scanner) : Prop where
  escape : s.state ≠ .escape
  dirty : s.state ≠ .dirtyEscape
  osc : ∀ escape, s.state ≠ .string .osc escape false
  suppressed : s.state ≠ .string .osc true true

theorem Settled.traced {s : Scanner} (h : Settled s) (fed : Bytes) : Traced s fed :=
  ⟨fun hs => absurd hs h.escape, fun hs => absurd hs h.dirty, fun escape hs => absurd hs (h.osc escape),
    fun hs => absurd hs h.suppressed⟩

/-- A boundary settles a scanner, unless an ESC is pending inside an OSC. -/
theorem settled_boundary {s : Scanner} (h : s.midEscape = false) : Settled s.boundary := by
  cases hs : s.state with
  | string kind escape suppressed =>
    have hb : s.boundary.state = .string kind escape true := by simp [boundary, suppressCandidate, hs]
    refine ⟨by simp [hb], by simp [hb], by simp [hb], fun hsup => ?_⟩
    rw [hb] at hsup
    cases hsup
    simp [midEscape, hs] at h
  | ground | csi | escape | dirtyEscape | lost phase =>
    constructor <;> simp [boundary, suppressCandidate, hs]

theorem Traced.of_state {s : Scanner} {fed : Bytes} (hescape : s.state ≠ .escape) (hdirty : s.state ≠ .dirtyEscape)
    (hosc : ∀ escape suppressed, s.state ≠ .string .osc escape suppressed) : Traced s fed :=
  ⟨fun h => absurd h hescape, fun h => absurd h hdirty, fun escape h => absurd h (hosc escape false),
    fun h => absurd h (hosc true true)⟩

theorem push_candidate {s : Scanner} {byte : UInt8} (h : (s.push byte).oversized = false) :
    s.oversized = false ∧ (s.push byte).candidate = s.candidate ++ [byte] := by
  unfold push at h ⊢
  split
  · rename_i hlen
    rw [if_pos hlen] at h
    exact ⟨h, rfl⟩
  · rename_i hlen
    rw [if_neg hlen] at h
    cases h

section

variable [Base64]

/-- What a complete OSC emits, and what its candidate was. -/
theorem complete_some {s : Scanner} {st : Bool} {event : ProgramEvent} (h : (s.complete st).1 = some event) :
    s.oversized = false ∧
      (event = .lifecycle .shellPrompt ∧ esc ∉ s.candidate ∧
          (s.candidate = promptMark ∨ promptMark ++ [0x3b] <+: s.candidate) ∨
        ∃ command, event = .command command ∧
          parseFrame (esc :: bracket :: s.candidate ++ if st then [esc, backslash] else [bel]) =
            .ok (.command command)) := by
  unfold complete at h
  generalize (if st = true then 4 else 3) = terminator at h
  generalize (if st = true then [esc, backslash] else [bel]) = ending at h ⊢
  split at h
  · rename_i hp
    simp only [Bool.and_eq_true, Bool.not_eq_true', Bool.or_eq_true, beq_iff_eq, List.contains_eq_mem,
      decide_eq_false_iff_not, List.isPrefixOf_iff_prefix] at hp
    exact ⟨hp.1.1, .inl ⟨(Option.some.inj h).symm, hp.1.2, hp.2⟩⟩
  split at h
  · cases h
  split at h
  · cases h
  · rename_i hlimit
    simp only [Bool.or_eq_true, not_or, Bool.not_eq_true] at hlimit
    refine ⟨hlimit.1, .inr ?_⟩
    dsimp only at h
    split at h
    · rename_i command hparse
      exact ⟨command, (Option.some.inj h).symm, hparse⟩
    · cases h
    · cases h

/-- An OSC that ends in BEL or in ESC-backslash, seen from the bytes fed. -/
theorem construct_of_complete {s : Scanner} {body : Bytes} (hbody : s.oversized = false → s.candidate = body)
    {st : Bool} (hst : st = true → EndsEscape body) {event : ProgramEvent}
    (h : ((if st then { s with candidate := s.candidate.dropLast } else s : Scanner).complete st).1 = some event) :
    Construct (esc :: bracket :: body ++ [if st then backslash else bel]) event := by
  cases st with
  | false =>
    rw [if_neg Bool.false_ne_true] at h
    obtain ⟨ho, hc⟩ := complete_some h
    rw [hbody ho] at hc
    rcases hc with ⟨rfl, hesc, hp⟩ | ⟨command, rfl, hparse⟩
    · exact .prompt hp hesc (.inr rfl)
    · exact .command hparse
  | true =>
    rw [if_pos rfl] at h
    obtain ⟨ho, hc⟩ := complete_some h
    dsimp only at ho hc
    rw [hbody ho] at hc
    obtain ⟨before, ignored, rfl, -⟩ := hst rfl
    -- Bytes ignored after the ESC would leave it inside the candidate, and no event has one there.
    have hnil : esc ∉ (before ++ esc :: ignored).dropLast → ignored = [] := by
      intro hesc
      rcases List.eq_nil_or_concat ignored with rfl | ⟨rest, byte, rfl⟩
      · rfl
      · rw [List.concat_eq_append, ← List.cons_append, ← List.append_assoc, List.dropLast_concat] at hesc
        simp at hesc
    rcases hc with ⟨rfl, hesc, hp⟩ | ⟨command, rfl, hparse⟩
    · obtain rfl := hnil hesc
      rw [List.dropLast_concat] at hp hesc
      simpa using Construct.prompt hp hesc (.inl rfl)
    · obtain ⟨-, rest, terminator, heq, ht, hclean⟩ := parseFrame_shape hparse
      have hesc : esc ∉ (before ++ esc :: ignored).dropLast := by
        generalize (before ++ esc :: ignored).dropLast = candidate at heq
        rcases ht with rfl | rfl
        · simp only [if_true, List.cons_append, List.cons.injEq, true_and, List.append_left_inj] at heq
          rw [heq]
          simp only [List.mem_append, not_or]
          exact ⟨by decide, fun hmem => (hclean esc hmem).1 rfl⟩
        · have hlast := congrArg List.reverse heq
          simp [backslash, bel] at hlast
      obtain rfl := hnil hesc
      rw [List.dropLast_concat] at hparse
      simpa using Construct.command hparse

theorem Traced.feedEscape {s : Scanner} {fed : Bytes} {suppressed : Bool} (hends : EndsEscape fed)
    (hclean : suppressed = false → ∃ before, fed = before ++ [esc]) (byte : UInt8) :
    Traced (s.feedEscape suppressed byte).2 (fed ++ [byte]) ∧
      ∀ event, (s.feedEscape suppressed byte).1 = some event →
        ∃ before construct, fed ++ [byte] = before ++ construct ∧ Construct construct event := by
  unfold Scanner.feedEscape
  cases hi : StringKind.introducedBy byte with
  | some kind =>
    refine ⟨⟨fun h => (by cases h), fun h => (by cases h), fun escape h => ?_, fun h => (by cases h)⟩,
      fun _ h => (by cases h)⟩
    simp only [State.string.injEq] at h
    obtain ⟨rfl, rfl, rfl⟩ := h
    obtain ⟨before, rfl⟩ := hclean rfl
    have hb : byte = bracket := by
      unfold StringKind.introducedBy at hi
      split at hi
      · assumption
      · repeat' (first | cases hi | split at hi)
    exact ⟨before, [], by simp [hb], fun _ => rfl, fun h => (by cases h)⟩
  | none =>
    dsimp only
    split
    · exact ⟨.of_state nofun nofun fun _ _ => nofun, fun _ h => (by cases h)⟩
    split
    · rename_i hignored
      exact ⟨⟨fun h => (by cases h), fun _ => hends.ignore hignored, fun _ h => (by cases h), fun h => (by cases h)⟩,
        fun _ h => (by cases h)⟩
    split
    · rename_i hesc
      exact ⟨⟨fun _ => ⟨fed, by rw [hesc]⟩, fun h => (by cases h), fun _ h => (by cases h), fun h => (by cases h)⟩,
        fun _ h => (by cases h)⟩
    split
    · rename_i hc
      refine ⟨.of_state nofun nofun fun _ _ => nofun, fun event h => ?_⟩
      cases h
      obtain ⟨before, ignored, rfl, hign⟩ := hends
      exact ⟨before, _, by simp [hc], .reset hign⟩
    · exact ⟨.of_state nofun nofun fun _ _ => nofun, fun _ h => (by cases h)⟩

theorem Traced.feedString {s : Scanner} {fed : Bytes} {kind : StringKind} {escape suppressed : Bool}
    (hosc : kind = .osc → suppressed = false → ∃ before body, fed = before ++ esc :: bracket :: body ∧
      (s.oversized = false → s.candidate = body) ∧ (escape = true → EndsEscape body))
    (hsup : kind = .osc → suppressed = true → escape = true → EndsEscape fed) (byte : UInt8) :
    Traced (s.feedString kind escape suppressed byte).2 (fed ++ [byte]) ∧
      ∀ event, (s.feedString kind escape suppressed byte).1 = some event →
        ∃ before construct, fed ++ [byte] = before ++ construct ∧ Construct construct event := by
  have hends : kind = .osc → escape = true → EndsEscape fed := by
    intro hk he
    cases hs : suppressed with
    | true => exact hsup hk hs he
    | false =>
      obtain ⟨before, body, rfl, -, hbody⟩ := hosc hk hs
      simpa using (hbody he).append (before ++ [esc, bracket])
  unfold Scanner.feedString
  by_cases hp : kind ≠ .dcs ∧ escape = true ∧ byte = 0x50
  · rw [if_pos hp]
    exact ⟨.of_state nofun nofun fun _ _ => nofun, fun _ h => (by cases h)⟩
  rw [if_neg hp]
  by_cases hend : (escape = true ∧ byte = backslash) ∨ (kind = .osc ∧ byte = bel)
  · rw [if_pos hend]
    refine ⟨?_, fun event h => ?_⟩
    · -- An ESC still pending at a BEL opens an escape the BEL has dirtied.
      by_cases hpending : (escape && !(escape && byte == backslash)) = true
      · dsimp only
        rw [if_pos hpending]
        have he : escape = true := by revert hpending; cases escape <;> simp
        have hb : byte ≠ backslash := by rintro rfl; simp [he] at hpending
        obtain ⟨hk, rfl⟩ := hend.resolve_left fun h => hb h.2
        exact ⟨fun h => (by cases h), fun _ => (hends hk he).ignore (by decide), fun _ h => (by cases h),
          fun h => (by cases h)⟩
      · dsimp only
        rw [if_neg hpending]
        exact .of_state nofun nofun fun _ _ => nofun
    · dsimp only at h
      split at h
      · rename_i hk
        obtain ⟨before, body, rfl, hcand, hbody⟩ := hosc hk.1 hk.2
        have hst : (escape && byte == backslash) = true → EndsEscape body := fun hst => hbody (by simp_all)
        have hlast : byte = if (escape && byte == backslash) = true then backslash else bel := by
          by_cases he : escape = true ∧ byte = backslash
          · simp [he]
          · have hb := (hend.resolve_left he).2
            subst hb
            simp [bel, backslash]
        refine ⟨before, _, ?_, construct_of_complete hcand hst h⟩
        rw [← hlast]
        simp
      · cases h
  · rw [if_neg hend]
    refine ⟨⟨fun h => (by cases h), fun h => (by cases h), fun e h => ?_, fun h => ?_⟩, fun _ h => (by cases h)⟩
    · simp only [State.string.injEq] at h
      obtain ⟨rfl, rfl, rfl⟩ := h
      obtain ⟨before, body, rfl, hcand, hbody⟩ := hosc rfl rfl
      refine ⟨before, body ++ [byte], by simp, fun ho => ?_, fun he => ?_⟩
      · obtain ⟨hold, hpush⟩ := push_candidate (s := s) (by simpa using ho)
        rw [← hcand hold]
        simpa using hpush
      · simp only [reduceCtorEq, if_false, Bool.or_eq_true, beq_iff_eq, Bool.and_eq_true] at he
        rcases he with rfl | ⟨he, hign⟩
        · exact endsEscape_esc body
        · exact (hbody he).ignore hign
    · simp only [State.string.injEq] at h
      obtain ⟨rfl, he, rfl⟩ := h
      simp only [reduceCtorEq, if_false, Bool.or_eq_true, beq_iff_eq, Bool.and_eq_true] at he
      rcases he with rfl | ⟨he, hign⟩
      · exact endsEscape_esc fed
      · exact (hends rfl he).ignore hign

/-- **A byte.** Whatever it completes, the bytes fed end in the construct that made it. -/
theorem Traced.feed {s : Scanner} {fed : Bytes} (h : Traced s fed) (byte : UInt8) :
    Traced (s.next byte) (fed ++ [byte]) ∧ ∀ event, s.emits byte = some event →
      ∃ before construct, fed ++ [byte] = before ++ construct ∧ Construct construct event := by
  unfold next emits Scanner.feed
  split
  · exact ⟨.of_state nofun nofun fun _ _ => nofun, fun _ h => (by cases h)⟩
  cases hs : s.state with
  | ground =>
    refine ⟨?_, fun _ h => (by cases h)⟩
    dsimp only
    split
    · rename_i hb
      exact ⟨fun _ => ⟨fed, by rw [hb]⟩, fun h => (by cases h), fun _ h => (by cases h), fun h => (by cases h)⟩
    · exact .of_state (by simp [hs]) (by simp [hs]) (by simp [hs])
  | escape =>
    obtain ⟨before, rfl⟩ := h.escape hs
    exact Traced.feedEscape (endsEscape_esc before) (fun _ => ⟨before, rfl⟩) byte
  | dirtyEscape => exact Traced.feedEscape (h.dirty hs) (fun h => (by cases h)) byte
  | csi =>
    refine ⟨?_, fun _ h => (by cases h)⟩
    dsimp only
    split
    · exact .of_state nofun nofun fun _ _ => nofun
    · split
      · rename_i hb
        exact ⟨fun _ => ⟨fed, by rw [hb]⟩, fun h => (by cases h), fun _ h => (by cases h), fun h => (by cases h)⟩
      · exact .of_state (by simp [hs]) (by simp [hs]) (by simp [hs])
  | string kind escape suppressed =>
    refine Traced.feedString (fun hk hsup => ?_) (fun hk hsup he => ?_) byte
    · subst hk hsup
      exact h.osc escape hs
    · subst hk hsup he
      exact h.suppressed hs
  | lost phase =>
    refine ⟨.of_state ?_ ?_ fun _ _ => ?_, fun _ h => (by cases h)⟩ <;>
    · dsimp only [feedLost]
      repeat' (first | (intro h; cases h) | split)

/-! ## Whole frames -/

theorem after_append (s : Scanner) (bytes rest : Bytes) : s.after (bytes ++ rest) = (s.after bytes).after rest :=
  Run.run_append ..

theorem events_append (s : Scanner) (bytes rest : Bytes) :
    s.events (bytes ++ rest) = s.events bytes ++ (s.after bytes).events rest := Run.firings_append ..

theorem after_concat (s : Scanner) (bytes : Bytes) (byte : UInt8) :
    s.after (bytes ++ [byte]) = (s.after bytes).next byte := Run.run_concat ..

theorem events_concat (s : Scanner) (bytes : Bytes) (byte : UInt8) :
    s.events (bytes ++ [byte]) = s.events bytes ++ ((s.after bytes).emits byte).toList := by
  rw [events_append]
  simp [events]

/-- A byte of an OSC's body is kept. -/
theorem feed_body {s : Scanner} (hs : s.state = .string .osc false false) (ho : s.oversized = false) {byte : UInt8}
    (hlen : s.candidate.length < maxFrameBytes) (hb : byte ≠ esc ∧ byte ≠ bel ∧ byte ≠ 0x18 ∧ byte ≠ 0x1a) :
    s.feed byte = (none, { s with candidate := s.candidate ++ [byte] }) := by
  obtain ⟨hesc, hbel, hcan, hsub⟩ := hb
  simp [feed, cancels, hs, feedString, push, hlen, hesc, hbel, hcan, hsub, ho]

theorem after_body {body : Bytes} {s : Scanner} (hs : s.state = .string .osc false false) (ho : s.oversized = false)
    (hlen : s.candidate.length + body.length ≤ maxFrameBytes)
    (hclean : ∀ byte ∈ body, byte ≠ esc ∧ byte ≠ bel ∧ byte ≠ 0x18 ∧ byte ≠ 0x1a) :
    s.after body = { s with candidate := s.candidate ++ body } ∧ s.events body = [] := by
  induction body generalizing s with
  | nil => simp [after, events]
  | cons byte body ih =>
    rw [List.length_cons] at hlen
    have hfeed := feed_body hs ho (by omega) (hclean byte List.mem_cons_self)
    have hnext : s.next byte = { s with candidate := s.candidate ++ [byte] } := congrArg Prod.snd hfeed
    have hemits : s.emits byte = none := congrArg Prod.fst hfeed
    have hlen' : (s.next byte).candidate.length + body.length ≤ maxFrameBytes := by
      rw [hnext, List.length_append, List.length_singleton]
      omega
    obtain ⟨hafter, hevents⟩ := ih (s := s.next byte) (by rw [hnext, hs]) (by rw [hnext, ho]) hlen'
      fun b hb => hclean b (List.mem_cons_of_mem _ hb)
    refine ⟨?_, ?_⟩
    · rw [after, Run.run_cons, ← after, hafter, hnext]
      simp
    · rw [events, Run.firings_cons, hemits]
      exact hevents

/-- A candidate within the cap whose frame parses is emitted. -/
theorem complete_frame {s : Scanner} {st : Bool} {command : ProgramCommand} (ho : s.oversized = false)
    (hpre : framePrefix <+: s.candidate) (hlen : s.candidate.length + (if st then 4 else 3) ≤ maxFrameBytes)
    (hp : parseFrame (esc :: bracket :: s.candidate ++ if st then [esc, backslash] else [bel]) =
      .ok (.command command)) : (s.complete st).1 = some (.command command) := by
  unfold complete
  generalize (if st = true then 4 else 3) = terminator at hlen ⊢
  generalize (if st = true then [esc, backslash] else [bel]) = ending at hp ⊢
  obtain ⟨rest, hrest⟩ := hpre
  have hprompt : (s.candidate == promptMark || (promptMark ++ [0x3b]).isPrefixOf s.candidate) = false := by
    rw [← hrest]
    simp [framePrefix, promptMark, List.isPrefixOf]
  have hprefix : framePrefix.isPrefixOf s.candidate = true := by
    rw [List.isPrefixOf_iff_prefix]
    exact ⟨rest, hrest⟩
  simp only [hprompt, Bool.and_false, Bool.false_eq_true, if_false, hprefix, Bool.not_true, ho, Bool.false_or,
    decide_eq_true_eq, Nat.not_lt.mpr hlen]
  rw [hp]

/-- The terminator of an OSC emits what its candidate completes to. -/
theorem feed_bel {s : Scanner} (hs : s.state = .string .osc false false) :
    s.emits bel = (s.complete false).1 ∧ (s.next bel).state = .ground := by
  simp [emits, next, feed, cancels, hs, feedString, bel, backslash]

theorem feed_st {s : Scanner} (hs : s.state = .string .osc false false) (hlen : s.candidate.length < maxFrameBytes) :
    s.emits esc = none ∧ (s.next esc).emits backslash = (s.complete true).1 ∧
      ((s.next esc).next backslash).state = .ground := by
  have hesc : s.feed esc =
      (none, { s with state := .string .osc true false, candidate := s.candidate ++ [esc] }) := by
    simp [feed, cancels, hs, feedString, push, hlen, esc, bel]
  have hemits : s.emits esc = none := congrArg Prod.fst hesc
  have hnext : s.next esc = { s with state := .string .osc true false, candidate := s.candidate ++ [esc] } :=
    congrArg Prod.snd hesc
  refine ⟨hemits, ?_, ?_⟩
  · rw [hnext]
    simp only [emits, feed, cancels, feedString]
    simp [backslash, complete_congr (a := { s with state := _ }) (b := s)]
  · rw [next_state, hnext]
    rfl

/-- **A whole frame.** From ground, a frame that parses as a command and holds no CAN or SUB is
emitted once, at its last byte. -/
theorem frame_events {s : Scanner} (hs : s.state = .ground) {frame : Bytes} {command : ProgramCommand}
    (hp : parseFrame frame = .ok (.command command)) (hclean : ∀ byte ∈ frame, byte ≠ 0x18 ∧ byte ≠ 0x1a) :
    s.events frame = [.command command] ∧ (s.after frame).state = .ground := by
  obtain ⟨hlen, body, terminator, rfl, ht, hbody⟩ := parseFrame_shape hp
  have hopen : s.after [esc, bracket] = { s with state := .string .osc false false, candidate := [], oversized := false } ∧
      s.events [esc, bracket] = [] := by
    simp [after, events, next, emits, feed, cancels, hs, feedEscape, StringKind.introducedBy, esc, bracket]
  have hcontent : ∀ byte ∈ framePrefix ++ body, byte ≠ esc ∧ byte ≠ bel ∧ byte ≠ 0x18 ∧ byte ≠ 0x1a := by
    intro byte hmem
    have hcan := hclean byte (by simp only [List.cons_append, List.mem_cons, List.mem_append] at hmem ⊢; tauto)
    rcases List.mem_append.mp hmem with hmem | hmem
    · have : ∀ byte ∈ framePrefix, byte ≠ esc ∧ byte ≠ bel := by simp [framePrefix, esc, bel]
      exact ⟨(this byte hmem).1, (this byte hmem).2, hcan⟩
    · exact ⟨(hbody byte hmem).1, (hbody byte hmem).2, hcan⟩
  have hsize : (framePrefix ++ body).length + terminator.length + 2 ≤ maxFrameBytes := by
    simp only [List.length_append, List.length_cons] at hlen ⊢
    omega
  have hpre : framePrefix <+: framePrefix ++ body := List.prefix_append ..
  have hsplit : esc :: bracket :: framePrefix ++ body ++ terminator =
      [esc, bracket] ++ ((framePrefix ++ body) ++ terminator) := by simp
  rw [hsplit] at hp ⊢
  generalize framePrefix ++ body = content at hp hpre hcontent hsize
  obtain ⟨hafter, hevents⟩ := after_body (s := s.after [esc, bracket]) (by rw [hopen.1]) (by rw [hopen.1])
    (by rw [hopen.1]; simp only [List.length_nil]; omega) hcontent
  rw [events_append, events_append, after_append, after_append, hevents, hafter, hopen.2, hopen.1, List.nil_append,
    List.nil_append, List.nil_append]
  rcases ht with rfl | rfl
  · have hcap : content.length + 4 ≤ maxFrameBytes := hsize
    obtain ⟨hemits, hemits', hground⟩ := feed_st (s := { s with
      state := .string .osc false false, candidate := content, oversized := false }) rfl (by dsimp only; omega)
    rw [events, Run.firings_cons, Run.firings_cons, hemits, hemits', complete_frame rfl hpre hcap hp]
    exact ⟨rfl, hground⟩
  · have hcap : content.length + 3 ≤ maxFrameBytes := hsize
    obtain ⟨hemits, hground⟩ := feed_bel (s := { s with
      state := .string .osc false false, candidate := content, oversized := false }) rfl
    rw [events, Run.firings_cons, hemits, complete_frame rfl hpre hcap hp]
    exact ⟨rfl, hground⟩

end

end Scanner

end TmuxAgents
