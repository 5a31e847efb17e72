/-
When a read of a pane's options decodes to a stamp, and which writes keep it so.

The decoder refuses an option's text on its own (`Readable`), so options that it
refuses nothing of stay so under writes of readable texts (`Clean`). A clean pane
stores a stamp exactly when its state is set, and the stamp shows the options
(`Clean.stored`).
-/
import TmuxAgents.Persist.RenderFacts

namespace TmuxAgents

variable {options : Options}

/-! ## Reads -/

theorem read_eq_of_value {a b : Options} {keys : List OptionKey} {key : OptionKey} (h : a.value key = b.value key) :
    a.read keys key = b.read keys key := by
  simp only [Options.read]
  split
  · simp only [Options.value] at h
    cases ha : a key <;> cases hb : b key <;> simp_all [Option.filter]
  · rfl

/-- A read integer is the number of its text. -/
theorem parseInt_read {key : OptionKey} (h : key ∈ paneOptionKeys) :
    parseInt (options.read paneOptionKeys) key =
      (Format.number (options.value key)).elim (.error (.badInteger key (options.value key))) .ok := by
  rw [value_of_read h]
  have hne := Options.read_noEmpty options paneOptionKeys key
  simp only [parseInt, Options.value]
  cases hread : options.read paneOptionKeys key with
  | none => rfl
  | some v =>
    have hv : v.isEmpty = false := by
      cases v with
      | nil => exact absurd hread hne
      | cons c v => rfl
    simp only [Option.getD_some, Format.number, hv, Bool.false_eq_true, if_false]
    cases Text.parseUnsigned (2 ^ 64) v <;> rfl

theorem read_of_value {key : OptionKey} {value : Text} (hkey : key ∈ paneOptionKeys)
    (h : options.value key = value) (hne : value ≠ []) : options.read paneOptionKeys key = some value := by
  rw [value_of_read hkey, Options.value] at h
  cases hread : options.read paneOptionKeys key with
  | none =>
    rw [hread] at h
    exact absurd h.symm hne
  | some v =>
    rw [hread] at h
    exact congrArg some h

theorem read_of_empty {key : OptionKey} (h : options.value key = []) : options.read paneOptionKeys key = none := by
  cases hread : options.read paneOptionKeys key with
  | none => rfl
  | some v =>
    have hkey : key ∈ paneOptionKeys := by
      by_contra hout
      rw [Options.read, if_neg hout] at hread
      cases hread
    rw [value_of_read hkey, Options.value, hread, Option.getD_some] at h
    rw [h] at hread
    exact absurd hread (Options.read_noEmpty options paneOptionKeys key)

theorem parseInt_ok {key : OptionKey} (h : key ∈ paneOptionKeys) :
    (∃ n, parseInt (options.read paneOptionKeys) key = .ok n) ↔ (Format.number (options.value key)).isSome = true := by
  rw [parseInt_read h]
  cases Format.number (options.value key) <;> simp

theorem parseOptInt_ok {key : OptionKey} (h : key ∈ paneOptionKeys) :
    (∃ n, parseOptInt (options.read paneOptionKeys) key = .ok n) ↔
      (Format.number (options.value key)).isSome = true := by
  rw [← parseInt_ok h]
  simp only [parseOptInt, parseInt]
  cases options.read paneOptionKeys key with
  | none => simp
  | some v =>
    simp only
    cases Text.parseUnsigned (2 ^ 64) v <;> simp

theorem parseSource_ok : (∃ source, parseSource (options.read paneOptionKeys) = .ok source) ↔
    options.value Opt.source = [] ∨ ∃ source, options.value Opt.source = StampProvenance.token source := by
  by_cases hempty : options.value Opt.source = []
  · simp [parseSource, read_of_empty hempty, hempty]
  · rw [parseSource, read_of_value (by decide) rfl hempty]
    constructor
    · rintro ⟨source, h⟩
      exact .inr ⟨source, StampProvenance.parse_eq h⟩
    · intro h
      obtain ⟨source, hsource⟩ := h.resolve_left hempty
      refine ⟨source, ?_⟩
      rw [hsource]
      cases source <;> rfl

theorem parsePid_ok : (∃ pid, parsePid (options.read paneOptionKeys) = .ok pid) ↔
    ∃ pid < 2 ^ 32, Format.number (options.value Opt.pid) = some pid := by
  rw [parsePid, parseInt_read (by decide)]
  cases Format.number (options.value Opt.pid) with
  | none => simp
  | some pid =>
    simp only [Option.elim_some]
    split
    next h => simpa using h
    next h => simpa using h

/-- The integers a stamp is decoded from, its pid apart. -/
def stampIntegers : List OptionKey :=
  [Opt.evidenceAt, Opt.since, Opt.stampedAt, Opt.notifiedAt, Opt.turnAt, Opt.hash]

/-- **When a read of the options decodes to a stamp.** -/
theorem decodes_iff : (∃ read, StampedState.fromOptions (options.read paneOptionKeys) = .ok (some read)) ↔
    (∃ state, options.value Opt.state = AgentState.token state) ∧
      (options.value Opt.source = [] ∨ ∃ source, options.value Opt.source = StampProvenance.token source) ∧
      (∃ pid < 2 ^ 32, Format.number (options.value Opt.pid) = some pid) ∧
      ∀ key ∈ stampIntegers, (Format.number (options.value key)).isSome = true := by
  rw [← parseSource_ok, ← parsePid_ok]
  constructor
  · rintro ⟨read, h⟩
    unfold StampedState.fromOptions at h
    split at h
    · cases h
    next v hstate =>
      obtain ⟨state, hparse, h⟩ := Checked.ok_of_bind h
      obtain ⟨source, hsource, h⟩ := Checked.ok_of_bind h
      obtain ⟨evidenceAt, hevidence, h⟩ := Checked.ok_of_bind h
      obtain ⟨since, hsince, h⟩ := Checked.ok_of_bind h
      obtain ⟨stampedAt, hstamped, h⟩ := Checked.ok_of_bind h
      obtain ⟨pid, hpid, h⟩ := Checked.ok_of_bind h
      obtain ⟨notifiedAt, hnotified, h⟩ := Checked.ok_of_bind h
      obtain ⟨turnAt, hturn, h⟩ := Checked.ok_of_bind h
      obtain ⟨hash, hhash, h⟩ := Checked.ok_of_bind h
      refine ⟨⟨state, ?_⟩, ⟨source, hsource⟩, ⟨pid, hpid⟩, ?_⟩
      · rw [value_of_read (by decide), Options.value, hstate, ← AgentState.parse_eq hparse]
        rfl
      · simp only [stampIntegers, List.forall_mem_cons, List.not_mem_nil, false_implies, implies_true, and_true]
        exact ⟨(parseInt_ok (by decide)).mp ⟨_, hevidence⟩, (parseInt_ok (by decide)).mp ⟨_, hsince⟩,
          (parseInt_ok (by decide)).mp ⟨_, hstamped⟩, (parseOptInt_ok (by decide)).mp ⟨_, hnotified⟩,
          (parseInt_ok (by decide)).mp ⟨_, hturn⟩, (parseOptInt_ok (by decide)).mp ⟨_, hhash⟩⟩
  · rintro ⟨⟨state, hstate⟩, ⟨source, hsource⟩, ⟨pid, hpid⟩, hintegers⟩
    have hread := read_of_value (by decide) hstate (by cases state <;> decide)
    obtain ⟨evidenceAt, hevidence⟩ := (parseInt_ok (by decide)).mpr (hintegers Opt.evidenceAt (by decide))
    obtain ⟨since, hsince⟩ := (parseInt_ok (by decide)).mpr (hintegers Opt.since (by decide))
    obtain ⟨stampedAt, hstamped⟩ := (parseInt_ok (by decide)).mpr (hintegers Opt.stampedAt (by decide))
    obtain ⟨notifiedAt, hnotified⟩ := (parseOptInt_ok (by decide)).mpr (hintegers Opt.notifiedAt (by decide))
    obtain ⟨turnAt, hturn⟩ := (parseInt_ok (by decide)).mpr (hintegers Opt.turnAt (by decide))
    obtain ⟨hash, hhash⟩ := (parseOptInt_ok (by decide)).mpr (hintegers Opt.hash (by decide))
    simp only [StampedState.fromOptions, hread, AgentState.parse_token, hsource, hevidence, hsince, hstamped, hpid,
      hnotified, hturn, hhash]
    exact ⟨_, rfl⟩

/-! ## Writes that stay readable -/

/-- The decoder does not refuse the text of the option. -/
def Readable (key : OptionKey) (text : Text) : Prop :=
  (key = Opt.state → text = [] ∨ ∃ state, text = AgentState.token state) ∧
    (key = Opt.source → text = [] ∨ ∃ source, text = StampProvenance.token source) ∧
    (key = Opt.pid → ∃ pid < 2 ^ 32, Format.number text = some pid) ∧
    (key ∈ stampIntegers → (Format.number text).isSome = true)

/-- No option holds a text the decoder refuses. -/
def Clean (options : Options) : Prop := ∀ key, Readable key (options.value key)

theorem readable_nil (key : OptionKey) : Readable key [] :=
  ⟨fun _ => .inl rfl, fun _ => .inl rfl, fun _ => ⟨0, by decide, rfl⟩, fun _ => rfl⟩

/-- An option the decoder takes as it is. -/
theorem readable_text {key : OptionKey} (h : key ∉ [Opt.state, Opt.source, Opt.pid] ++ stampIntegers) (text : Text) :
    Readable key text := by
  simp only [List.mem_append, not_or, List.mem_cons, List.not_mem_nil, not_false_eq_true, and_true] at h
  obtain ⟨⟨hstate, hsource, hpid⟩, hinteger⟩ := h
  exact ⟨fun hkey => absurd hkey hstate, fun hkey => absurd hkey hsource, fun hkey => absurd hkey hpid,
    fun hkey => absurd hkey hinteger⟩

theorem readable_decimal {key : OptionKey} {n : Nat} (hkey : key ∉ [Opt.state, Opt.source, Opt.pid])
    (hn : n < 2 ^ 64) : Readable key (Text.decimal n) := by
  simp only [List.mem_cons, List.not_mem_nil, not_or, not_false_eq_true, and_true] at hkey
  refine ⟨fun h => absurd h hkey.1, fun h => absurd h hkey.2.1, fun h => absurd h hkey.2.2, fun _ => ?_⟩
  rw [Format.number_decimal hn]
  rfl

theorem readable_pid {pid : Nat} (h : pid < 2 ^ 32) : Readable Opt.pid (Text.decimal pid) :=
  ⟨fun h => absurd h (by decide), fun h => absurd h (by decide),
    fun _ => ⟨pid, h, Format.number_decimal (h.trans (by decide))⟩, fun h => absurd h (by decide)⟩

theorem readable_state (state : AgentState) : Readable Opt.state state.token :=
  ⟨fun _ => .inr ⟨state, rfl⟩, fun h => absurd h (by decide), fun h => absurd h (by decide),
    fun h => absurd h (by decide)⟩

theorem readable_source (source : StampProvenance) : Readable Opt.source source.token :=
  ⟨fun h => absurd h (by decide), fun _ => .inr ⟨source, rfl⟩, fun h => absurd h (by decide),
    fun h => absurd h (by decide)⟩

theorem Clean.applyEdits {edits : List OptionEdit} (h : Clean options)
    (hedits : ∀ edit ∈ edits, Readable edit.key (edit.value.getD [])) : Clean (applyEdits edits options) := by
  induction edits generalizing options with
  | nil => exact h
  | cons edit edits ih =>
    refine @ih (edit.apply options) (fun key => ?_) fun e he => hedits e (List.mem_cons_of_mem _ he)
    rw [OptionEdit.value_apply]
    by_cases hkey : key = edit.key
    · rw [hkey, Function.update_self]
      exact hedits edit List.mem_cons_self
    · rw [Function.update_of_ne hkey]
      exact h key

theorem clean_nil : Clean fun _ => none := readable_nil

/-- Options that decode to a stamp are clean. -/
theorem clean_of_decodes
    (h : ∃ read, StampedState.fromOptions (options.read paneOptionKeys) = .ok (some read)) : Clean options := by
  obtain ⟨⟨state, hstate⟩, hsource, hpid, hintegers⟩ := decodes_iff.mp h
  intro key
  refine ⟨?_, ?_, ?_, hintegers key⟩
  · rintro rfl
    exact .inr ⟨state, hstate⟩
  · rintro rfl
    exact hsource
  · rintro rfl
    exact hpid

/-- A clean pane with a state decodes to a stamp. -/
theorem Clean.decodes (h : Clean options) (hstate : options.value Opt.state ≠ []) :
    ∃ read, StampedState.fromOptions (options.read paneOptionKeys) = .ok (some read) :=
  decodes_iff.mpr ⟨((h Opt.state).1 rfl).resolve_left hstate, (h Opt.source).2.1 rfl, (h Opt.pid).2.2.1 rfl,
    fun key hkey => (h key).2.2.2 hkey⟩

end TmuxAgents
