/-
What a projection reads (`persistence.rs`): the keys a delayed writer compares
are all that its kind depends on.
-/
import TmuxAgents.Persist.Metadata

namespace TmuxAgents

/-- `PROJECTION_KEYS`. -/
def projectionKeys : List OptionKey :=
  [ProgramOpt.origin, ProgramOpt.owner, ProgramOpt.commit, ProgramOpt.collector, Opt.state, Opt.source, Opt.pid,
    Opt.evidenceAt, Opt.since, Opt.stampedAt, Opt.notifiedAt, Opt.turnAt, Opt.hash]

/-- How a pane reads, apart from what its stamp says. -/
inductive ProjectionKind
  | malformed (error : GrammarError)
  | absent
  | settled
  | inProgress
  | live (owner : PaneOwner) (commit : CommitMarker)
  | stale
deriving DecidableEq

namespace ProjectionKind

def ofLegacy : Option ReadResult → ProjectionKind
  | none => .absent
  | some (.settled _) => .settled
  | some (.inProgress _) => .inProgress

def ofRead : Except GrammarError ProjectionRead → ProjectionKind
  | .error e => .malformed e
  | .ok (.legacy read) => ofLegacy read
  | .ok (.live _ owner commit) => .live owner commit
  | .ok .stale => .stale

end ProjectionKind

/-- How the pane with these options reads at `now`. -/
def projectionKind (options : Options) (now : Nat) : ProjectionKind :=
  ProjectionKind.ofRead (readProjection options now)

/-! ## Agreement -/

/-- The two panes show the same text under every key, an unset option showing none. -/
def Options.Agree (keys : List OptionKey) (a b : Options) : Prop := ∀ key ∈ keys, a.value key = b.value key

namespace Options.Agree

theorem symm {keys : List OptionKey} {a b : Options} (h : Agree keys a b) : Agree keys b a :=
  fun key hk => (h key hk).symm

/-- Where no option is empty, the same text is the same option. -/
theorem get {keys : List OptionKey} {a b : Options} (h : Agree keys a b) (ha : a.NoEmpty) (hb : b.NoEmpty)
    {key : OptionKey} (hk : key ∈ keys) : a key = b key := by
  have hv := h key hk
  simp only [Options.value] at hv
  have hna := ha key
  have hnb := hb key
  cases hka : a key with
  | none =>
    cases hkb : b key with
    | none => rfl
    | some v =>
      rw [hka, hkb] at hv
      rw [hkb] at hnb
      exact absurd (congrArg some hv.symm) hnb
  | some u =>
    cases hkb : b key with
    | none =>
      rw [hka, hkb] at hv
      rw [hka] at hna
      exact absurd (congrArg some hv) hna
    | some v =>
      rw [hka, hkb] at hv
      exact congrArg some hv

end Options.Agree

/-! ## The stamp -/

/-- The stamp without what no projection looks at. -/
def StampedState.bare (stamp : StampedState) : StampedState :=
  { stamp with detail := none, attention := false, session := none, subagents := [] }

def ReadResult.bare : ReadResult → ReadResult
  | .settled stamp => .settled stamp.bare
  | .inProgress stamp => .inProgress stamp.bare

/-- A read of the tuple, bare. -/
def bareRead (read : Except GrammarError (Option ReadResult)) : Except GrammarError (Option ReadResult) :=
  read.map (Option.map ReadResult.bare)

/-- A stamp settles or not by the fields that stay. -/
theorem ReadResult.bare_settle (stamp : StampedState) :
    ReadResult.bare (if stamp.midWrite then .inProgress stamp else .settled stamp) =
      if stamp.bare.midWrite then .inProgress stamp.bare else .settled stamp.bare := by
  have hm : stamp.bare.midWrite = stamp.midWrite := rfl
  rw [hm]
  cases stamp.midWrite <;> rfl

/-- A bare read of a computation is the bare read of what follows its first step. -/
theorem bareRead_bind {α : Type} {x : Except GrammarError α} {f g : α → Except GrammarError (Option ReadResult)}
    (h : ∀ v, bareRead (f v) = bareRead (g v)) : bareRead (x >>= f) = bareRead (x >>= g) := by
  cases x with
  | error e => rfl
  | ok v => exact h v

theorem parseInt_congr {a b : Options} {key : OptionKey} (h : a key = b key) : parseInt a key = parseInt b key := by
  simp only [parseInt, h]

theorem parseOptInt_congr {a b : Options} {key : OptionKey} (h : a key = b key) :
    parseOptInt a key = parseOptInt b key := by
  simp only [parseOptInt, h]

/-- The tuple's fields that count are read from the compared keys. -/
theorem fromOptions_bare {a b : Options} (h : ∀ key ∈ projectionKeys, a key = b key) :
    bareRead (StampedState.fromOptions a) = bareRead (StampedState.fromOptions b) := by
  have hstate : a Opt.state = b Opt.state := h _ (by simp [projectionKeys])
  have hsource : parseSource a = parseSource b := by
    simp only [parseSource, h Opt.source (by simp [projectionKeys])]
  have hpid : parsePid a = parsePid b := by
    simp only [parsePid, parseInt, Options.value, h Opt.pid (by simp [projectionKeys])]
  have hevidence := parseInt_congr (h Opt.evidenceAt (by simp [projectionKeys]))
  have hsince := parseInt_congr (h Opt.since (by simp [projectionKeys]))
  have hstamped := parseInt_congr (h Opt.stampedAt (by simp [projectionKeys]))
  have hturn := parseInt_congr (h Opt.turnAt (by simp [projectionKeys]))
  have hnotified := parseOptInt_congr (h Opt.notifiedAt (by simp [projectionKeys]))
  have hhash := parseOptInt_congr (h Opt.hash (by simp [projectionKeys]))
  simp only [StampedState.fromOptions, hstate, hsource, hpid, hevidence, hsince, hstamped, hturn, hnotified, hhash]
  cases b Opt.state with
  | none => rfl
  | some v =>
    refine bareRead_bind fun state => bareRead_bind fun source => bareRead_bind fun evidenceAt =>
      bareRead_bind fun since => bareRead_bind fun stampedAt => bareRead_bind fun pid =>
      bareRead_bind fun notifiedAt => bareRead_bind fun turnAt => bareRead_bind fun hash => ?_
    simp only [bareRead, Except.map, Option.map, ReadResult.bare_settle]
    rfl

/-- Two reads that are one when bare failed alike, found nothing, or settled alike. -/
theorem bareRead_cases {x y : Except GrammarError (Option ReadResult)} (h : bareRead x = bareRead y) :
    (∃ e, x = .error e ∧ y = .error e) ∨ (x = .ok none ∧ y = .ok none) ∨
      (∃ s t, x = .ok (some (.settled s)) ∧ y = .ok (some (.settled t)) ∧ s.bare = t.bare) ∨
      ∃ s t, x = .ok (some (.inProgress s)) ∧ y = .ok (some (.inProgress t)) ∧ s.bare = t.bare := by
  rcases x with e | _ | (s | s) <;> rcases y with f | _ | (t | t) <;>
    simp [bareRead, Except.map, ReadResult.bare] at h ⊢
  · exact h.symm
  · exact h
  · exact h

/-! ## The projection -/

/-- The markers a projection judges by are read from the compared keys. -/
theorem fromOptions_markers {a b : Options} (h : ∀ key ∈ projectionKeys, a key = b key) :
    (ProgramMetadata.fromOptions a).programOrigin = (ProgramMetadata.fromOptions b).programOrigin ∧
      (ProgramMetadata.fromOptions a).originComplete = (ProgramMetadata.fromOptions b).originComplete ∧
      (ProgramMetadata.fromOptions a).owner = (ProgramMetadata.fromOptions b).owner ∧
      (ProgramMetadata.fromOptions a).commit = (ProgramMetadata.fromOptions b).commit ∧
      (ProgramMetadata.fromOptions a).lease = (ProgramMetadata.fromOptions b).lease := by
  have horigin := h ProgramOpt.origin (by simp [projectionKeys])
  have howner := h ProgramOpt.owner (by simp [projectionKeys])
  have hcommit := h ProgramOpt.commit (by simp [projectionKeys])
  have hcollector := h ProgramOpt.collector (by simp [projectionKeys])
  simp only [ProgramMetadata.fromOptions, List.any_cons, List.any_nil, horigin, howner, hcommit, hcollector,
    and_self]

/-- The kind of a projection of two panes that agree on what it reads. -/
theorem projectionKind_congr {a b : Options} (h : ∀ key ∈ projectionKeys, a key = b key) (now : Nat) :
    projectionKind a now = projectionKind b now := by
  obtain ⟨horigin, hcomplete, howner, hcommit, hlease⟩ := fromOptions_markers h
  simp only [projectionKind, readProjection, ProgramMetadata.projection, horigin, hcomplete, howner, hcommit, hlease]
  rcases bareRead_cases (fromOptions_bare h) with ⟨e, hx, hy⟩ | ⟨hx, hy⟩ | ⟨s, t, hx, hy, hst⟩ | ⟨s, t, hx, hy, -⟩
  · rw [hx, hy]
  · rw [hx, hy]
  · rw [hx, hy]
    -- the live test reads the pid and the source, which are bare
    have hpid : s.bare.pid = t.bare.pid := congrArg StampedState.pid hst
    have hsource : s.bare.source = t.bare.source := congrArg StampedState.source hst
    simp only [StampedState.bare] at hpid hsource
    simp only [hpid, hsource]
    split
    · rfl
    · split
      · split
        · rfl
        · split <;> rfl
      · rfl
  · rw [hx, hy]
    split
    · rfl
    · split
      · split <;> rfl
      · rfl

end TmuxAgents
