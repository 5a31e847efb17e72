/-
The codecs of the persisted markers (`persistence.rs`) are exact: every value an encoder can
be given reads back, under the length caps, and no second text reads as the same value.

Counters are naturals here, so what a value must satisfy to be one of the source's includes
the width of its integers (`fits`).
-/
import TmuxAgents.Lib.Codec
import TmuxAgents.Persist.Publication

namespace TmuxAgents

open Codec

/-! ## The metadata codecs -/

/-- What an advisory update was sampled from, and when. -/
inductive MetadataEvidence
  | context (at_ : Nat)
  | quota (at_ : Nat)
deriving DecidableEq

def MetadataEvidence.at_ : MetadataEvidence → Nat
  | .context at_ => at_
  | .quota at_ => at_

/-- An advisory update, which supersedes an older yielding suffix. -/
structure MetadataUpdate where
  token : Token
  evidence : Option MetadataEvidence
deriving DecidableEq

namespace MetadataUpdate

def encode (update : MetadataUpdate) : Text :=
  update.token.text ++ '|' ::
    match update.evidence with
    | some (.context at_) => 'c' :: '|' :: Text.decimal at_
    | some (.quota at_) => 'q' :: '|' :: Text.decimal at_
    | none => 'n' :: '|' :: Text.decimal 0

def parse (raw : Text) : Option MetadataUpdate :=
  if 56 < Text.len raw then none
  else
    match raw.splitOn '|' with
    | [token, lane, at_] => do
      let token ← Token.parse token
      let at_ ← number at_
      if lane = ['c'] then some { token, evidence := some (.context at_) }
      else if lane = ['q'] then some { token, evidence := some (.quota at_) }
      else if lane = ['n'] ∧ at_ = 0 then some { token, evidence := none }
      else none
    | _ => none

end MetadataUpdate

/-- The value of a lowercase hex digit. -/
def hexValue (c : Char) : Nat := if c.isDigit then c.toNat - '0'.toNat else 10 + (c.toNat - 'a'.toNat)

/-- The bytes of pairs of hex digits. The caller has checked the digits and that their number is even. -/
def hexBytes : Text → Bytes
  | high :: low :: rest => UInt8.ofNat (16 * hexValue high + hexValue low) :: hexBytes rest
  | _ => []

namespace MetadataOwner

def maxProcessBytes : Nat := 10 + 3 + 20 + 1 + 6

def parse (raw : Text) : Option MetadataOwner :=
  if maxProcessBytes + 1 + 2048 < Text.len raw then none
  else do
    let (process, session) ← splitOnce '|' raw
    let process ← parseProcess (process.splitOn ':')
    if session.isEmpty || 2048 < Text.len session || Text.len session % 2 ≠ 0 || !session.all isHexDigit then none
    else do
      let session ← Text.fromUtf8 (hexBytes session)
      if session.any isControl then none else some { process, session }

end MetadataOwner

/-! ## The values of the source's types -/

/-- `u32` and `u64` hold the identity's numbers. -/
def ProcessIdentity.fits (process : ProcessIdentity) : Bool :=
  decide (process.pid < 2 ^ 32) && match process.birth with
    | .linuxStartTicks ticks => decide (ticks < 2 ^ 64)
    | .macOsStart seconds _ => decide (seconds < 2 ^ 64)

def CollectorLease.Valid (lease : CollectorLease) : Prop := lease.expiresAt < 2 ^ 64

/-- What `ProcessChain::new` checks is in the type. -/
def ProcessChain.Valid (chain : ProcessChain) : Prop := ∀ process ∈ chain.processes, process.fits = true

def PaneOwner.Valid (owner : PaneOwner) : Prop :=
  (owner.episode ≠ 0 ∧ owner.streamEpoch ≠ 0) ∧
    owner.episode < 2 ^ 64 ∧ owner.streamEpoch < 2 ^ 64 ∧ owner.processes.Valid

def CommitMarker.Valid (marker : CommitMarker) : Prop := marker.owner.Valid

/-- A result of its owner's episode, which is what `PersistedResult::new` checks. -/
def PersistedResult.Valid (result : PersistedResult) : Prop :=
  result.identity.generation ≠ 0 ∧ result.identity.owner = result.owner.episode ∧
    result.identity.generation < 2 ^ 64 ∧ result.cycle < 2 ^ 64 ∧ result.owner.Valid

def NotificationClaim.Valid (claim : NotificationClaim) : Prop := claim.result.Valid

def BlockedHistory.Valid (history : BlockedHistory) : Prop := history.processes.Valid

def MetadataUpdate.Valid (update : MetadataUpdate) : Prop := ∀ evidence ∈ update.evidence, evidence.at_ < 2 ^ 64

def MetadataOwner.Valid (owner : MetadataOwner) : Prop :=
  owner.process.sound = true ∧ owner.process.fits = true ∧
    1 ≤ Text.len owner.session ∧ Text.len owner.session ≤ 1024 ∧ owner.session.any isControl = false

/-! ## Lengths in bytes -/

theorem utf8Size_of_le {c : Char} (h : c.toNat ≤ 127) : c.utf8Size = 1 :=
  Char.utf8Size_eq_one_iff.mpr h

theorem utf8Size_of_isHexDigit {c : Char} (h : isHexDigit c = true) : c.utf8Size = 1 := by
  refine utf8Size_of_le ?_
  simp only [isHexDigit, Char.isDigit, Bool.or_eq_true, Bool.and_eq_true, decide_eq_true_eq] at h
  rcases h with ⟨-, h⟩ | ⟨-, h⟩
  · exact Nat.le_trans (UInt32.le_iff_toNat_le.mp h) (by decide)
  · exact Nat.le_trans (UInt32.le_iff_toNat_le.mp h) (by decide)

theorem isHexDigit_of_isDigit {c : Char} (h : c.isDigit = true) : isHexDigit c = true := by
  rw [isHexDigit, h, Bool.true_or]

theorem len_decimal (n : Nat) : Text.len (Text.decimal n) = (Text.decimal n).length :=
  Text.len_of_ascii fun _ hc => utf8Size_of_isHexDigit (isHexDigit_of_isDigit (Text.isDigit_of_mem_decimal hc))

theorem len_decimal_le {n k : Nat} (hk : 0 < k) (h : n < 10 ^ k) : Text.len (Text.decimal n) ≤ k := by
  rw [len_decimal]
  exact Text.length_decimal_le hk h

theorem len_u64 {n : Nat} (h : n < 2 ^ 64) : Text.len (Text.decimal n) ≤ 20 :=
  len_decimal_le (by decide) (Nat.lt_trans h (by decide))

/-! ## Numbers, tokens and fields -/

theorem splitOnce_eq_some {sep : Char} {text before after : Text} :
    splitOnce sep text = some (before, after) ↔ sep ∉ before ∧ before ++ sep :: after = text := by
  rcases Text.find_sep sep text with ⟨hdrop, hmem⟩ | ⟨rest, hdrop, htake, happend⟩
  · rw [splitOnce, hdrop]
    constructor
    · intro h
      cases h
    · rintro ⟨-, rfl⟩
      exact absurd (List.mem_append_right _ List.mem_cons_self) hmem
  · rw [splitOnce, hdrop]
    simp only [Option.some.injEq, Prod.mk.injEq]
    constructor
    · rintro ⟨rfl, rfl⟩
      exact ⟨htake, happend⟩
    · rintro ⟨hbefore, heq⟩
      exact Text.field_unique htake hbefore (happend.trans heq.symm)

/-- A canonical number is one text of a `u64`. -/
theorem number_eq_some {value : Text} {n : Nat} : number value = some n ↔ n < 2 ^ 64 ∧ Text.decimal n = value := by
  constructor
  · intro h
    unfold number at h
    split at h
    · cases h
    · split at h
      · cases h
      · rename_i m hm
        split at h
        · rename_i heq
          cases h
          exact ⟨Text.parseUnsigned_lt hm, heq⟩
        · cases h
  · rintro ⟨hn, rfl⟩
    have hdigits : (Text.decimal n).all Char.isDigit = true :=
      List.all_eq_true.mpr fun c hc => Text.isDigit_of_mem_decimal hc
    have hlen : ¬ 20 < Text.len (Text.decimal n) := Nat.not_lt.mpr (len_u64 hn)
    have hempty : (Text.decimal n).isEmpty = false := List.isEmpty_eq_false_iff.mpr (Text.decimal_ne_nil n)
    rw [number, Text.parseUnsigned_decimal hn, hdigits, hempty, decide_eq_false hlen, if_neg (by decide)]
    exact if_pos rfl

theorem Token.parse_eq_some {value : Text} {token : Token} : Token.parse value = some token ↔ token.text = value := by
  unfold Token.parse
  constructor
  · intro h
    split at h
    · cases h
      rfl
    · cases h
  · rintro rfl
    rw [dif_pos token.valid]

theorem Token.isHexDigit_of_mem {token : Token} {c : Char} (h : c ∈ token.text) : isHexDigit c = true :=
  List.all_eq_true.mp (Bool.and_eq_true_iff.mp token.valid).2 c h

theorem Token.not_mem {token : Token} {c : Char} (hc : isHexDigit c = false) : c ∉ token.text := by
  intro h
  rw [Token.isHexDigit_of_mem h] at hc
  cases hc

theorem Token.len (token : Token) : Text.len token.text = 32 := by
  rw [Text.len_of_ascii fun c hc => utf8Size_of_isHexDigit (Token.isHexDigit_of_mem hc)]
  exact beq_iff_eq.mp (Bool.and_eq_true_iff.mp token.valid).1

/-! ## Processes -/

/-- The fields of a process. -/
def processTexts (process : ProcessIdentity) : List Text :=
  match process.birth with
  | .linuxStartTicks ticks => [Text.decimal process.pid, ['l'], Text.decimal ticks]
  | .macOsStart seconds microseconds =>
    [Text.decimal process.pid, ['m'], Text.decimal seconds, Text.decimal microseconds]

theorem intercalate_processTexts (process : ProcessIdentity) :
    [':'].intercalate (processTexts process) = processFields process := by
  obtain ⟨pid, birth⟩ := process
  cases birth <;> simp [processTexts, processFields]

theorem mem_processFields {process : ProcessIdentity} {c : Char} (h : c ∈ processFields process) :
    c.isDigit = true ∨ c = ':' ∨ c = 'l' ∨ c = 'm' := by
  rw [← intercalate_processTexts] at h
  rcases mem_intercalate h with rfl | ⟨field, hfield, hc⟩
  · exact .inr (.inl rfl)
  · have hcase : field = ['l'] ∨ field = ['m'] ∨ ∃ n, field = Text.decimal n := by
      unfold processTexts at hfield
      split at hfield
      · simp only [List.mem_cons, List.not_mem_nil, or_false] at hfield
        rcases hfield with h | h | h
        · exact .inr (.inr ⟨_, h⟩)
        · exact .inl h
        · exact .inr (.inr ⟨_, h⟩)
      · simp only [List.mem_cons, List.not_mem_nil, or_false] at hfield
        rcases hfield with h | h | h | h
        · exact .inr (.inr ⟨_, h⟩)
        · exact .inr (.inl h)
        · exact .inr (.inr ⟨_, h⟩)
        · exact .inr (.inr ⟨_, h⟩)
    rcases hcase with rfl | rfl | ⟨n, rfl⟩
    · exact .inr (.inr (.inl (List.mem_singleton.mp hc)))
    · exact .inr (.inr (.inr (List.mem_singleton.mp hc)))
    · exact .inl (Text.isDigit_of_mem_decimal hc)

theorem parseProcess_eq_some {fields : List Text} {process : ProcessIdentity} :
    parseProcess fields = some process ↔
      (process.sound = true ∧ process.fits = true) ∧ processTexts process = fields := by
  constructor
  · intro h
    unfold parseProcess at h
    split at h
    · rename_i pidText kind rest
      simp only [Option.bind_eq_bind, Option.bind_eq_some_iff, number_eq_some] at h
      obtain ⟨pid, ⟨-, rfl⟩, h⟩ := h
      split at h
      · cases h
      · rename_i hpid
        rw [not_or, Nat.not_le] at hpid
        split at h
        · rename_i hkind
          subst hkind
          split at h
          · rename_i ticksText
            simp only [Option.map_eq_some_iff, number_eq_some] at h
            obtain ⟨ticks, ⟨hticks, rfl⟩, rfl⟩ := h
            refine ⟨⟨?_, ?_⟩, rfl⟩
            · simp [ProcessIdentity.sound, hpid.2]
            · simp only [ProcessIdentity.fits, Bool.and_eq_true, decide_eq_true_eq]
              exact ⟨hpid.1, hticks⟩
          · cases h
        · split at h
          · rename_i hkind
            subst hkind
            split at h
            · rename_i secondsText microsText
              simp only [Option.bind_eq_some_iff, number_eq_some] at h
              obtain ⟨seconds, ⟨hseconds, rfl⟩, micros, ⟨-, rfl⟩, h⟩ := h
              split at h
              · cases h
              · rename_i hmicros
                cases h
                refine ⟨⟨?_, ?_⟩, rfl⟩
                · simp [ProcessIdentity.sound, hpid.2, Nat.not_le.mp hmicros]
                · simp only [ProcessIdentity.fits, Bool.and_eq_true, decide_eq_true_eq]
                  exact ⟨hpid.1, hseconds⟩
            · cases h
          · cases h
    · cases h
  · rintro ⟨⟨hsound, hfits⟩, rfl⟩
    obtain ⟨pid, birth⟩ := process
    cases birth with
    | linuxStartTicks ticks =>
      simp only [ProcessIdentity.sound, ProcessIdentity.fits, Bool.and_eq_true, decide_eq_true_eq, ne_eq, and_true]
        at hsound hfits
      have hpid : number (Text.decimal pid) = some pid :=
        number_eq_some.mpr ⟨Nat.lt_trans hfits.1 (by decide), rfl⟩
      have hticks : number (Text.decimal ticks) = some ticks := number_eq_some.mpr ⟨hfits.2, rfl⟩
      have hrange : ¬ (2 ^ 32 ≤ pid ∨ pid = 0) := by omega
      simp only [processTexts, parseProcess, hpid, hticks, Option.bind_eq_bind, Option.bind_some, if_neg hrange,
        if_true, Option.map_some]
    | macOsStart seconds micros =>
      simp only [ProcessIdentity.sound, ProcessIdentity.fits, Bool.and_eq_true, decide_eq_true_eq, ne_eq]
        at hsound hfits
      have hpid : number (Text.decimal pid) = some pid :=
        number_eq_some.mpr ⟨Nat.lt_trans hfits.1 (by decide), rfl⟩
      have hseconds : number (Text.decimal seconds) = some seconds := number_eq_some.mpr ⟨hfits.2, rfl⟩
      have hmicros : number (Text.decimal micros) = some micros :=
        number_eq_some.mpr ⟨Nat.lt_trans hsound.2 (by decide), rfl⟩
      have hrange : ¬ (2 ^ 32 ≤ pid ∨ pid = 0) := by omega
      have hlm : ¬ ['m'] = ['l'] := by decide
      simp only [processTexts, parseProcess, hpid, hseconds, hmicros, Option.bind_eq_bind, Option.bind_some,
        if_neg hrange, if_neg hlm, if_true, if_neg (Nat.not_le.mpr hsound.2)]

theorem processTexts_ne_nil (process : ProcessIdentity) : processTexts process ≠ [] := by
  unfold processTexts
  split <;> exact List.cons_ne_nil _ _

theorem not_mem_processFields {process : ProcessIdentity} {c : Char} (hdigit : c.isDigit = false)
    (hc : c ≠ ':' ∧ c ≠ 'l' ∧ c ≠ 'm') : c ∉ processFields process := by
  intro h
  rcases mem_processFields h with h | h | h | h
  · rw [h] at hdigit
    cases hdigit
  · exact hc.1 h
  · exact hc.2.1 h
  · exact hc.2.2 h

/-- `parse_process` on a process's whole text. -/
theorem process_exact :
    Exact (fun process => process.sound = true ∧ process.fits = true) processFields
      fun text => parseProcess (text.splitOn ':') := by
  refine Exact.of_iff fun text process => ?_
  rw [parseProcess_eq_some]
  constructor
  · rintro ⟨hvalid, hfields⟩
    rw [← intercalate_processTexts, hfields]
    exact ⟨hvalid, List.intercalate_splitOn ':'⟩
  · rintro ⟨hvalid, rfl⟩
    refine ⟨hvalid, ?_⟩
    rw [← intercalate_processTexts]
    refine (List.splitOn_intercalate ':' ?_ (processTexts_ne_nil process)).symm
    intro field hfield hmem
    have hcase : ∀ n, ':' ∉ Text.decimal n := Text.not_mem_decimal (by decide)
    unfold processTexts at hfield
    split at hfield <;> simp only [List.mem_cons, List.not_mem_nil, or_false] at hfield
    · rcases hfield with rfl | rfl | rfl
      · exact hcase _ hmem
      · exact absurd hmem (by decide)
      · exact hcase _ hmem
    · rcases hfield with rfl | rfl | rfl | rfl
      · exact hcase _ hmem
      · exact absurd hmem (by decide)
      · exact hcase _ hmem
      · exact hcase _ hmem

theorem len_processFields {process : ProcessIdentity} (hsound : process.sound = true) (hfits : process.fits = true) :
    Text.len (processFields process) ≤ MetadataOwner.maxProcessBytes := by
  obtain ⟨pid, birth⟩ := process
  have hcolon : ':'.utf8Size = 1 := by decide
  have hl : 'l'.utf8Size = 1 := by decide
  have hm : 'm'.utf8Size = 1 := by decide
  rw [← intercalate_processTexts]
  cases birth with
  | linuxStartTicks ticks =>
    simp only [ProcessIdentity.fits, Bool.and_eq_true, decide_eq_true_eq] at hfits
    have hpid := len_decimal_le (k := 10) (by decide) (Nat.lt_trans hfits.1 (by decide))
    have hticks := len_u64 hfits.2
    simp only [processTexts, List.intercalate_cons_cons, List.intercalate_singleton, Text.len_append, Text.len_cons,
      Text.len_nil, hcolon, hl, MetadataOwner.maxProcessBytes]
    omega
  | macOsStart seconds micros =>
    simp only [ProcessIdentity.fits, ProcessIdentity.sound, Bool.and_eq_true, decide_eq_true_eq] at hfits hsound
    have hpid := len_decimal_le (k := 10) (by decide) (Nat.lt_trans hfits.1 (by decide))
    have hseconds := len_u64 hfits.2
    have hmicros := len_decimal_le (k := 6) (by decide) hsound.2
    simp only [processTexts, List.intercalate_cons_cons, List.intercalate_singleton, Text.len_append, Text.len_cons,
      Text.len_nil, hcolon, hm, MetadataOwner.maxProcessBytes]
    omega

/-! ## Chains and owners -/

theorem ProcessChain.new_eq_some {processes : List ProcessIdentity} {chain : ProcessChain} :
    ProcessChain.new processes = some chain ↔ chain.processes = processes := by
  unfold ProcessChain.new
  constructor
  · intro h
    split at h
    · cases h
      rfl
    · cases h
  · rintro rfl
    rw [dif_pos chain.valid]

theorem ProcessChain.length_le (chain : ProcessChain) : chain.processes.length ≤ 256 := by
  have h := chain.valid
  simp only [chainOk, Bool.and_eq_true, decide_eq_true_eq] at h
  exact h.1.1.2

theorem ProcessChain.sound_of_mem {chain : ProcessChain} {process : ProcessIdentity} (h : process ∈ chain.processes) :
    process.sound = true := by
  have hv := chain.valid
  simp only [chainOk, Bool.and_eq_true] at hv
  exact List.all_eq_true.mp hv.1.2 process h

theorem ProcessChain.mem_encode {chain : ProcessChain} {c : Char} (h : c ∈ chain.encode) :
    c = '~' ∨ ∃ process, c ∈ processFields process := by
  rcases mem_intercalate h with h | ⟨field, hfield, hc⟩
  · exact .inl h
  · obtain ⟨process, -, rfl⟩ := List.mem_map.mp hfield
    exact .inr ⟨process, hc⟩

theorem ProcessChain.pipe_not_mem (chain : ProcessChain) : '|' ∉ chain.encode := by
  intro h
  rcases ProcessChain.mem_encode h with h | ⟨process, h⟩
  · cases h
  · exact not_mem_processFields (by decide) (by decide) h

theorem ProcessChain.len_encode {chain : ProcessChain} (h : chain.Valid) :
    Text.len chain.encode ≤ ProcessChain.maxBytes := by
  have hfields : ∀ field ∈ chain.processes.map processFields, Text.len field ≤ MetadataOwner.maxProcessBytes := by
    intro field hfield
    obtain ⟨process, hmem, rfl⟩ := List.mem_map.mp hfield
    exact len_processFields (ProcessChain.sound_of_mem hmem) (h process hmem)
  have htilde : '~'.utf8Size = 1 := by decide
  have hlen := Text.len_intercalate_le htilde hfields
  rw [List.length_map] at hlen
  have hcount := chain.length_le
  have hmul := Nat.mul_le_mul_right (MetadataOwner.maxProcessBytes + 1) hcount
  refine Nat.le_trans hlen ?_
  exact Nat.sub_le_sub_right hmul 1

theorem ProcessChain.exact : Exact ProcessChain.Valid ProcessChain.encode ProcessChain.parse := by
  refine Exact.of_iff fun raw chain => ?_
  constructor
  · intro h
    unfold ProcessChain.parse at h
    split at h
    · cases h
    · simp only [Option.bind_eq_bind, Option.bind_eq_some_iff, ProcessChain.new_eq_some,
        process_exact.mapM_eq_some] at h
      obtain ⟨processes, ⟨hvalid, htexts⟩, rfl⟩ := h
      -- No more than 256 of the 257 texts taken parse to a chain, so they are all there are.
      have hall : (raw.splitOn '~').take 257 = raw.splitOn '~' := by
        refine List.take_of_length_le ?_
        have hlen : chain.processes.length = ((raw.splitOn '~').take 257).length := by
          rw [← htexts, List.length_map]
        have hcount := chain.length_le
        rw [List.length_take] at hlen
        omega
      rw [hall] at htexts
      refine ⟨fun process hmem => (hvalid process hmem).2, ?_⟩
      rw [ProcessChain.encode, htexts]
      exact List.intercalate_splitOn '~'
  · rintro ⟨hvalid, rfl⟩
    have hsplit : chain.encode.splitOn '~' = chain.processes.map processFields := by
      refine List.splitOn_intercalate '~' ?_ ?_
      · intro field hfield
        obtain ⟨process, -, rfl⟩ := List.mem_map.mp hfield
        exact not_mem_processFields (by decide) (by decide)
      · simpa using chain.ne_nil
    have htake : (chain.processes.map processFields).take 257 = chain.processes.map processFields := by
      refine List.take_of_length_le ?_
      rw [List.length_map]
      have hcount := chain.length_le
      omega
    have hmap := process_exact.mapM_eq_some.mpr
      ⟨fun process hmem => ⟨ProcessChain.sound_of_mem hmem, hvalid process hmem⟩, rfl⟩
    rw [ProcessChain.parse, if_neg (Nat.not_lt.mpr (ProcessChain.len_encode hvalid)), hsplit, htake, hmap]
    exact ProcessChain.new_eq_some.mpr rfl

theorem PaneOwner.pipe_not_mem (owner : PaneOwner) : '|' ∉ owner.encode := by
  have hdecimal : ∀ n, '|' ∉ Text.decimal n := Text.not_mem_decimal (by decide)
  have htoken : '|' ∉ owner.collector.text := Token.not_mem (by decide)
  have hchain := owner.processes.pipe_not_mem
  simp [PaneOwner.encode, hdecimal, htoken, hchain]

theorem PaneOwner.len_encode {owner : PaneOwner} (h : owner.Valid) : Text.len owner.encode ≤ PaneOwner.maxBytes := by
  obtain ⟨-, hepisode, hepoch, hchain⟩ := h
  have hcolon : ':'.utf8Size = 1 := by decide
  have hepisode := len_u64 hepisode
  have hepoch := len_u64 hepoch
  have hchain := ProcessChain.len_encode hchain
  simp only [PaneOwner.encode, Text.len_append, Text.len_cons, hcolon, Token.len, PaneOwner.maxBytes]
  omega

theorem PaneOwner.exact : Exact PaneOwner.Valid PaneOwner.encode PaneOwner.parse := by
  refine Exact.of_iff fun raw owner => ?_
  constructor
  · intro h
    unfold PaneOwner.parse at h
    split at h
    · cases h
    · split at h
      · rename_i hsplit
        obtain ⟨-, rfl⟩ := Text.splitn_four.mp hsplit
        simp only [Option.bind_eq_bind, Option.bind_eq_some_iff, Token.parse_eq_some, number_eq_some,
          ProcessChain.exact.parse_eq_some] at h
        obtain ⟨collector, rfl, episode, ⟨hepisode, rfl⟩, epoch, ⟨hepoch, rfl⟩, chain, ⟨hchain, rfl⟩, h⟩ := h
        split at h
        · cases h
        · rename_i hzero
          cases h
          exact ⟨⟨not_or.mp hzero, hepisode, hepoch, hchain⟩, rfl⟩
      · cases h
  · rintro ⟨hvalid, rfl⟩
    have hdecimal : ∀ n, ':' ∉ Text.decimal n := Text.not_mem_decimal (by decide)
    have hcap : ¬ PaneOwner.maxBytes < Text.len owner.encode := Nat.not_lt.mpr (PaneOwner.len_encode hvalid)
    obtain ⟨hzero, hepisode, hepoch, hchain⟩ := hvalid
    have hsplit : Text.splitn 4 ':' owner.encode =
        [owner.collector.text, Text.decimal owner.episode, Text.decimal owner.streamEpoch,
          owner.processes.encode] :=
      Text.splitn_four.mpr ⟨⟨Token.not_mem (by decide), hdecimal _, hdecimal _⟩, rfl⟩
    have hcollector : Token.parse owner.collector.text = some owner.collector := Token.parse_eq_some.mpr rfl
    have hepisode : number (Text.decimal owner.episode) = some owner.episode := number_eq_some.mpr ⟨hepisode, rfl⟩
    have hepoch : number (Text.decimal owner.streamEpoch) = some owner.streamEpoch :=
      number_eq_some.mpr ⟨hepoch, rfl⟩
    simp only [PaneOwner.parse, if_neg hcap, hsplit, hcollector, hepisode, hepoch,
      ProcessChain.exact.parse_encode _ hchain, Option.bind_eq_bind, Option.bind_some, if_neg (not_or.mpr hzero)]

theorem CommitMarker.exact : Exact CommitMarker.Valid CommitMarker.encode CommitMarker.parse := by
  refine Exact.of_iff fun raw marker => ?_
  constructor
  · intro h
    unfold CommitMarker.parse at h
    split at h
    · cases h
    · simp only [Option.bind_eq_bind, Option.bind_eq_some_iff, Prod.exists, splitOnce_eq_some, Token.parse_eq_some,
        PaneOwner.exact.parse_eq_some, Option.some.injEq] at h
      obtain ⟨-, -, ⟨-, rfl⟩, write, rfl, owner, ⟨howner, rfl⟩, rfl⟩ := h
      exact ⟨howner, rfl⟩
  · rintro ⟨hvalid, rfl⟩
    have hcap : ¬ 32 + 1 + PaneOwner.maxBytes < Text.len marker.encode := by
      have howner := PaneOwner.len_encode hvalid
      have hpipe : '|'.utf8Size = 1 := by decide
      rw [CommitMarker.encode, Text.len_append, Text.len_cons, Token.len, hpipe]
      omega
    have hsplit : splitOnce '|' marker.encode = some (marker.write.text, marker.owner.encode) :=
      splitOnce_eq_some.mpr ⟨Token.not_mem (by decide), rfl⟩
    have hwrite : Token.parse marker.write.text = some marker.write := Token.parse_eq_some.mpr rfl
    simp only [CommitMarker.parse, if_neg hcap, hsplit, hwrite, PaneOwner.exact.parse_encode _ hvalid,
      Option.bind_eq_bind, Option.bind_some]

theorem CollectorLease.exact : Exact CollectorLease.Valid CollectorLease.encode CollectorLease.parse := by
  refine Exact.of_iff fun raw lease => ?_
  constructor
  · intro h
    unfold CollectorLease.parse at h
    split at h
    · cases h
    · simp only [Option.bind_eq_bind, Option.bind_eq_some_iff, Prod.exists, splitOnce_eq_some, Token.parse_eq_some,
        number_eq_some, Option.some.injEq] at h
      obtain ⟨-, -, ⟨-, rfl⟩, token, rfl, expiresAt, ⟨hexpires, rfl⟩, rfl⟩ := h
      exact ⟨hexpires, rfl⟩
  · rintro ⟨hvalid, rfl⟩
    have hcap : ¬ 20 + 1 + 32 < Text.len lease.encode := by
      have hexpires := len_u64 hvalid
      have hcolon : ':'.utf8Size = 1 := by decide
      rw [CollectorLease.encode, Text.len_append, Text.len_cons, Token.len, hcolon]
      omega
    have hsplit : splitOnce ':' lease.encode = some (Text.decimal lease.expiresAt, lease.token.text) :=
      splitOnce_eq_some.mpr ⟨Text.not_mem_decimal (by decide) _, rfl⟩
    have htoken : Token.parse lease.token.text = some lease.token := Token.parse_eq_some.mpr rfl
    have hexpires : number (Text.decimal lease.expiresAt) = some lease.expiresAt := number_eq_some.mpr ⟨hvalid, rfl⟩
    simp only [CollectorLease.parse, if_neg hcap, hsplit, htoken, hexpires, Option.bind_eq_bind, Option.bind_some]

/-! ## Record ids -/

/-- The bytes of an id are characters of one byte. -/
theorem byte_char {n : Nat} (hn : n < 256)
    (h : identifierByte (UInt8.ofNat n) = true ∨ UInt8.ofNat n = slash) :
    String.utf8EncodeChar (Char.ofNat n) = [UInt8.ofNat n] ∧ Char.ofNat n ≠ '|' := by
  have hall : ∀ n < 256, identifierByte (UInt8.ofNat n) = true ∨ UInt8.ofNat n = slash →
      String.utf8EncodeChar (Char.ofNat n) = [UInt8.ofNat n] ∧ Char.ofNat n ≠ '|' := by decide +kernel
  exact hall n hn h

/-- An id's bytes are its segments' and the separators'. -/
theorem RecordId.byte_of_mem {id : RecordId} {byte : UInt8} (h : byte ∈ id.str) :
    identifierByte byte = true ∨ byte = slash := by
  rcases id.valid with hroot | hok
  · rw [hroot] at h
    cases h
  · simp only [recordIdOk, Bool.and_eq_true, List.all_eq_true] at hok
    have hsplit : [slash].intercalate (id.str.splitOn slash) = id.str := List.intercalate_splitOn slash
    rw [← hsplit] at h
    rcases mem_intercalate h with rfl | ⟨segment, hsegment, hbyte⟩
    · exact .inr rfl
    · exact .inl ((hok.1.2 segment hsegment).2 byte hbyte)

theorem RecordId.bytes_text (id : RecordId) : Text.bytes id.text = id.str := by
  have hbytes : ∀ bytes : Bytes, (∀ byte ∈ bytes, identifierByte byte = true ∨ byte = slash) →
      Text.bytes (bytes.map fun b => Char.ofNat b.toNat) = bytes := by
    intro bytes h
    induction bytes with
    | nil => rfl
    | cons byte bytes ih =>
      have hbyte := h byte List.mem_cons_self
      rw [← UInt8.ofNat_toNat (x := byte)] at hbyte
      have hchar := (byte_char byte.toNat_lt hbyte).1
      have htail := ih fun b hb => h b (List.mem_cons_of_mem _ hb)
      rw [Text.bytes] at htail ⊢
      rw [List.map_cons, List.flatMap_cons, htail, hchar, UInt8.ofNat_toNat]
      rfl
  exact hbytes id.str fun _ h => RecordId.byte_of_mem h

theorem RecordId.pipe_not_mem (id : RecordId) : '|' ∉ id.text := by
  intro h
  obtain ⟨byte, hmem, hchar⟩ := List.mem_map.mp h
  have hbyte := RecordId.byte_of_mem hmem
  rw [← UInt8.ofNat_toNat (x := byte)] at hbyte
  exact (byte_char byte.toNat_lt hbyte).2 hchar

theorem RecordId.len_text (id : RecordId) : Text.len id.text ≤ maxIdBytes := by
  rw [Text.len, RecordId.bytes_text]
  rcases id.valid with hroot | hok
  · rw [hroot]
    exact Nat.zero_le _
  · simp only [recordIdOk, Bool.and_eq_true, decide_eq_true_eq] at hok
    exact hok.1.1.2

theorem RecordId.ofText_eq_some {text : Text} {id : RecordId} : RecordId.ofText text = some id ↔ id.text = text := by
  unfold RecordId.ofText
  constructor
  · intro h
    split at h
    · rename_i hempty
      cases h
      exact (List.isEmpty_iff.mp hempty).symm
    · split at h
      · rename_i parsed hparse
        cases h
        unfold RecordId.parse at hparse
        split at hparse
        · cases hparse
          exact Text.bytes_injective (RecordId.bytes_text _)
        · cases hparse
      · cases h
  · rintro rfl
    by_cases hroot : id.str = []
    · have htext : id.text = [] := by rw [RecordId.text, hroot, List.map_nil]
      rw [htext]
      exact congrArg some (RecordId.ext hroot.symm)
    · have htext : id.text.isEmpty = false := by
        rw [List.isEmpty_eq_false_iff]
        intro hnil
        exact hroot (List.map_eq_nil_iff.mp hnil)
      have hok : recordIdOk id.str = true := id.valid.resolve_left hroot
      rw [htext, RecordId.bytes_text, RecordId.parse, dif_pos hok]
      rfl

/-! ## Results, claims and blocked history -/

theorem PersistedResult.len_encode {result : PersistedResult} (h : result.Valid) :
    Text.len result.encode ≤ PersistedResult.maxBytes := by
  obtain ⟨-, -, hgeneration, hcycle, howner⟩ := h
  have hpipe : '|'.utf8Size = 1 := by decide
  have howner := PaneOwner.len_encode howner
  have hrecord := result.identity.record.len_text
  have hgeneration := len_u64 hgeneration
  have hcycle := len_u64 hcycle
  have hdone : Text.len "done".toList ≤ 5 := by decide
  have herror : Text.len "error".toList ≤ 5 := by decide
  rw [PersistedResult.encode, Text.len_append, Text.len_cons, Text.len_append, Text.len_cons, Text.len_append,
    Text.len_cons, Text.len_append, Text.len_cons, hpipe, PersistedResult.maxBytes]
  split <;> omega

/-- What the constructor makes of an owner and a result of the source's types is valid. -/
theorem PersistedResult.valid_of_new {owner : PaneOwner} {result : ProgramResult} {persisted : PersistedResult}
    (h : PersistedResult.new owner result = some persisted) (howner : owner.Valid)
    (hzero : result.identity.generation ≠ 0) (hgeneration : result.identity.generation < 2 ^ 64)
    (hcycle : result.cycle < 2 ^ 64) : persisted.Valid := by
  unfold PersistedResult.new at h
  split at h
  · rename_i hepisode
    cases h
    exact ⟨hzero, hepisode.symm, hgeneration, hcycle, howner⟩
  · cases h

/-- The last field of a result. -/
def ResultKind.text : ResultKind → Text
  | .completion => "done".toList
  | .failure => "error".toList

theorem PersistedResult.encode_eq (result : PersistedResult) : result.encode =
    ['|'].intercalate [result.owner.encode, result.identity.record.text, Text.decimal result.identity.generation,
      Text.decimal result.cycle, result.kind.text] := by
  obtain ⟨owner, identity, cycle, kind⟩ := result
  cases kind <;> simp [PersistedResult.encode, ResultKind.text]

theorem PersistedResult.exact : Exact PersistedResult.Valid PersistedResult.encode PersistedResult.parse := by
  refine Exact.of_iff fun raw result => ?_
  constructor
  · intro h
    unfold PersistedResult.parse at h
    split at h
    · cases h
    · split at h
      · rename_i hsplit
        obtain ⟨-, -, rfl⟩ := Text.splitOn_eq_iff.mp hsplit
        simp only [Option.bind_eq_bind, Option.bind_eq_some_iff, PaneOwner.exact.parse_eq_some,
          RecordId.ofText_eq_some, number_eq_some] at h
        obtain ⟨owner, ⟨howner, rfl⟩, record, rfl, generation, ⟨hgeneration, rfl⟩, cycle, ⟨hcycle, rfl⟩, h⟩ := h
        have finish : ∀ kind : ResultKind, (if generation = 0 then none else
            some (PersistedResult.mk owner ⟨owner.episode, record, generation⟩ cycle kind)) = some result →
            result.Valid ∧ result.encode = ['|'].intercalate
              [owner.encode, record.text, Text.decimal generation, Text.decimal cycle, kind.text] := by
          intro kind h
          split at h
          · cases h
          · rename_i hzero
            cases h
            exact ⟨⟨hzero, rfl, hgeneration, hcycle, howner⟩, PersistedResult.encode_eq _⟩
        split at h
        · rename_i hkind
          subst hkind
          exact finish .completion h
        · split at h
          · rename_i hkind
            subst hkind
            exact finish .failure h
          · cases h
      · cases h
  · rintro ⟨hvalid, rfl⟩
    have hcap : ¬ PersistedResult.maxBytes < Text.len result.encode :=
      Nat.not_lt.mpr (PersistedResult.len_encode hvalid)
    obtain ⟨owner, ⟨episode, record, generation⟩, cycle, kind⟩ := result
    obtain ⟨hzero, hepisode, hgeneration, hcycle, howner⟩ := hvalid
    simp only at hzero hepisode hgeneration hcycle howner
    subst hepisode
    have hdecimal : ∀ n, '|' ∉ Text.decimal n := Text.not_mem_decimal (by decide)
    have hsplit : (PersistedResult.encode ⟨owner, ⟨owner.episode, record, generation⟩, cycle, kind⟩).splitOn '|' =
        [owner.encode, record.text, Text.decimal generation, Text.decimal cycle,
          kind.text] := by
      refine Text.splitOn_eq_iff.mpr ⟨List.cons_ne_nil _ _, ?_,
        (PersistedResult.encode_eq ⟨owner, ⟨owner.episode, record, generation⟩, cycle, kind⟩).symm⟩
      intro field hfield
      simp only [List.mem_cons, List.not_mem_nil, or_false] at hfield
      rcases hfield with rfl | rfl | rfl | rfl | rfl
      · exact owner.pipe_not_mem
      · exact record.pipe_not_mem
      · exact hdecimal _
      · exact hdecimal _
      · clear hcap
        cases kind <;> decide
    have hrecord : RecordId.ofText record.text = some record := RecordId.ofText_eq_some.mpr rfl
    have hgeneration' : number (Text.decimal generation) = some generation := number_eq_some.mpr ⟨hgeneration, rfl⟩
    have hcycle' : number (Text.decimal cycle) = some cycle := number_eq_some.mpr ⟨hcycle, rfl⟩
    have hfailure : ¬ ResultKind.failure.text = "done".toList := by decide
    simp only [PersistedResult.parse, if_neg hcap, hsplit, PaneOwner.exact.parse_encode _ howner, hrecord, hgeneration',
      hcycle', Option.bind_eq_bind, Option.bind_some, if_neg hzero]
    cases kind with
    | completion => exact if_pos rfl
    | failure =>
      rw [if_neg hfailure]
      exact if_pos rfl

theorem NotificationClaim.exact : Exact NotificationClaim.Valid NotificationClaim.encode NotificationClaim.parse := by
  refine Exact.of_iff fun raw claim => ?_
  constructor
  · intro h
    unfold NotificationClaim.parse at h
    split at h
    · cases h
    · simp only [Option.bind_eq_bind, Option.bind_eq_some_iff, Prod.exists, splitOnce_eq_some, Token.parse_eq_some,
        PersistedResult.exact.parse_eq_some, Option.some.injEq] at h
      obtain ⟨-, -, ⟨-, rfl⟩, token, rfl, result, ⟨hresult, rfl⟩, rfl⟩ := h
      exact ⟨hresult, rfl⟩
  · rintro ⟨hvalid, rfl⟩
    have hcap : ¬ 32 + 1 + PersistedResult.maxBytes < Text.len claim.encode := by
      have hresult := PersistedResult.len_encode hvalid
      have hpipe : '|'.utf8Size = 1 := by decide
      rw [NotificationClaim.encode, Text.len_append, Text.len_cons, Token.len, hpipe]
      omega
    have hsplit : splitOnce '|' claim.encode = some (claim.token.text, claim.result.encode) :=
      splitOnce_eq_some.mpr ⟨Token.not_mem (by decide), rfl⟩
    have htoken : Token.parse claim.token.text = some claim.token := Token.parse_eq_some.mpr rfl
    simp only [NotificationClaim.parse, if_neg hcap, hsplit, htoken, PersistedResult.exact.parse_encode _ hvalid,
      Option.bind_eq_bind, Option.bind_some]

theorem BlockedHistory.exact : Exact BlockedHistory.Valid BlockedHistory.encode BlockedHistory.parse := by
  refine Exact.of_iff fun raw history => ?_
  constructor
  · intro h
    unfold BlockedHistory.parse at h
    split at h
    · cases h
    · split at h
      · rename_i hsplit
        obtain ⟨-, -, rfl⟩ := Text.splitOn_eq_iff.mp hsplit
        simp only [Option.bind_eq_bind, Option.bind_eq_some_iff, ProcessChain.exact.parse_eq_some,
          Token.parse_eq_some] at h
        obtain ⟨processes, ⟨hprocesses, rfl⟩, episode, rfl, h⟩ := h
        have finish : ∀ (acknowledged : Bool) (recordText : Text), ((RecordId.ofText recordText).bind fun record =>
            some (BlockedHistory.mk processes episode acknowledged record)) = some history →
            history.Valid ∧ history.encode = ['|'].intercalate
              [processes.encode, episode.text, [if acknowledged then '1' else '0'], recordText] := by
          intro acknowledged recordText h
          simp only [Option.bind_eq_some_iff, RecordId.ofText_eq_some, Option.some.injEq] at h
          obtain ⟨record, rfl, rfl⟩ := h
          exact ⟨hprocesses, by simp [BlockedHistory.encode]⟩
        split at h
        · rename_i hflag
          subst hflag
          exact finish false _ h
        · split at h
          · rename_i hflag
            subst hflag
            exact finish true _ h
          · cases h
      · cases h
  · rintro ⟨hvalid, rfl⟩
    have hcap : ¬ ProcessChain.maxBytes + 36 + maxIdBytes < Text.len history.encode := by
      have hprocesses := ProcessChain.len_encode hvalid
      have hrecord := history.record.len_text
      have hpipe : '|'.utf8Size = 1 := by decide
      have hflag : (if history.acknowledged then '1' else '0').utf8Size = 1 := by
        split <;> decide
      rw [BlockedHistory.encode, Text.len_append, Text.len_cons, Text.len_append, Text.len_cons, Text.len_cons,
        Text.len_cons, Token.len, hpipe, hflag]
      omega
    have hsplit : history.encode.splitOn '|' =
        [history.processes.encode, history.episode.text, [if history.acknowledged then '1' else '0'],
          history.record.text] := by
      refine Text.splitOn_eq_iff.mpr ⟨List.cons_ne_nil _ _, ?_, by simp [BlockedHistory.encode]⟩
      intro field hfield
      simp only [List.mem_cons, List.not_mem_nil, or_false] at hfield
      rcases hfield with rfl | rfl | rfl | rfl
      · exact history.processes.pipe_not_mem
      · exact Token.not_mem (by decide)
      · cases history.acknowledged <;> decide
      · exact history.record.pipe_not_mem
    have hepisode : Token.parse history.episode.text = some history.episode := Token.parse_eq_some.mpr rfl
    have hrecord : RecordId.ofText history.record.text = some history.record := RecordId.ofText_eq_some.mpr rfl
    simp only [BlockedHistory.parse, if_neg hcap, hsplit, ProcessChain.exact.parse_encode _ hvalid, hepisode, hrecord,
      Option.bind_eq_bind, Option.bind_some]
    obtain ⟨processes, episode, acknowledged, record⟩ := history
    cases acknowledged <;> rfl

/-! ## Hook metadata -/

/-- The lane and the time of an update. -/
def MetadataUpdate.texts (update : MetadataUpdate) : List Text :=
  match update.evidence with
  | some (.context at_) => [update.token.text, ['c'], Text.decimal at_]
  | some (.quota at_) => [update.token.text, ['q'], Text.decimal at_]
  | none => [update.token.text, ['n'], Text.decimal 0]

theorem MetadataUpdate.encode_eq (update : MetadataUpdate) : update.encode = ['|'].intercalate update.texts := by
  obtain ⟨token, evidence⟩ := update
  rcases evidence with _ | ⟨at_⟩ | ⟨at_⟩ <;> simp [MetadataUpdate.encode, MetadataUpdate.texts]

theorem MetadataUpdate.texts_shape {update : MetadataUpdate} (h : update.Valid) :
    ∃ lane at_, update.texts = [update.token.text, [lane], Text.decimal at_] ∧ at_ < 2 ^ 64 ∧
      (lane = 'c' ∨ lane = 'q' ∨ lane = 'n') := by
  obtain ⟨token, evidence⟩ := update
  rcases evidence with _ | ⟨at_⟩ | ⟨at_⟩
  · exact ⟨'n', 0, rfl, by decide, .inr (.inr rfl)⟩
  · exact ⟨'c', at_, rfl, h _ rfl, .inl rfl⟩
  · exact ⟨'q', at_, rfl, h _ rfl, .inr (.inl rfl)⟩

theorem MetadataUpdate.exact : Exact MetadataUpdate.Valid MetadataUpdate.encode MetadataUpdate.parse := by
  refine Exact.of_iff fun raw update => ?_
  constructor
  · intro h
    unfold MetadataUpdate.parse at h
    split at h
    · cases h
    · split at h
      · rename_i hsplit
        obtain ⟨-, -, rfl⟩ := Text.splitOn_eq_iff.mp hsplit
        simp only [Option.bind_eq_bind, Option.bind_eq_some_iff, Token.parse_eq_some, number_eq_some] at h
        obtain ⟨token, rfl, at_, ⟨hat, rfl⟩, h⟩ := h
        have hvalid : ∀ evidence : MetadataEvidence, evidence.at_ = at_ →
            MetadataUpdate.Valid { token, evidence := some evidence } := by
          rintro evidence rfl other hother
          cases hother
          exact hat
        split at h
        · rename_i hlane
          subst hlane
          cases h
          exact ⟨hvalid (.context at_) rfl, MetadataUpdate.encode_eq _⟩
        · split at h
          · rename_i hlane
            subst hlane
            cases h
            exact ⟨hvalid (.quota at_) rfl, MetadataUpdate.encode_eq _⟩
          · split at h
            · rename_i hlane
              obtain ⟨rfl, rfl⟩ := hlane
              cases h
              exact ⟨fun _ hother => (by cases hother), MetadataUpdate.encode_eq _⟩
            · cases h
      · cases h
  · rintro ⟨hvalid, rfl⟩
    obtain ⟨lane, at_, htexts, hat, hlane⟩ := MetadataUpdate.texts_shape hvalid
    have hsize : lane.utf8Size = 1 := by rcases hlane with rfl | rfl | rfl <;> decide
    have hpipe : '|'.utf8Size = 1 := by decide
    have hcap : ¬ 56 < Text.len update.encode := by
      have hlen := len_u64 hat
      rw [MetadataUpdate.encode_eq, htexts]
      simp only [List.intercalate_cons_cons, List.intercalate_singleton, Text.len_append, Text.len_cons, Text.len_nil,
        Token.len, hsize, hpipe]
      omega
    have hsplit : update.encode.splitOn '|' = [update.token.text, [lane], Text.decimal at_] := by
      rw [MetadataUpdate.encode_eq, htexts]
      refine Text.splitOn_eq_iff.mpr ⟨List.cons_ne_nil _ _, ?_, rfl⟩
      intro field hfield
      simp only [List.mem_cons, List.not_mem_nil, or_false] at hfield
      rcases hfield with rfl | rfl | rfl
      · exact Token.not_mem (by decide)
      · rcases hlane with rfl | rfl | rfl <;> decide
      · exact Text.not_mem_decimal (by decide) _
    have htoken : Token.parse update.token.text = some update.token := Token.parse_eq_some.mpr rfl
    have hnumber : number (Text.decimal at_) = some at_ := number_eq_some.mpr ⟨hat, rfl⟩
    simp only [MetadataUpdate.parse, if_neg hcap, hsplit, htoken, hnumber, Option.bind_eq_bind, Option.bind_some]
    obtain ⟨token, evidence⟩ := update
    rcases evidence with _ | ⟨time⟩ | ⟨time⟩ <;> simp only [MetadataUpdate.texts, List.cons.injEq, true_and, and_true]
      at htexts
    · obtain ⟨rfl, htime⟩ := htexts
      obtain rfl := Text.decimal_injective htime
      rfl
    · obtain ⟨rfl, htime⟩ := htexts
      obtain rfl := Text.decimal_injective htime
      rfl
    · obtain ⟨rfl, htime⟩ := htexts
      obtain rfl := Text.decimal_injective htime
      rfl

theorem hexDigit_value {c : Char} (h : isHexDigit c = true) : Nat.digitChar (hexValue c) = c ∧ hexValue c < 16 := by
  have hall : ∀ n < 103, isHexDigit (Char.ofNat n) = true →
      Nat.digitChar (hexValue (Char.ofNat n)) = Char.ofNat n ∧ hexValue (Char.ofNat n) < 16 := by decide +kernel
  have hlt : c.toNat < 103 := by
    simp only [isHexDigit, Char.isDigit, Bool.or_eq_true, Bool.and_eq_true, decide_eq_true_eq] at h
    rcases h with ⟨-, h⟩ | ⟨-, h⟩
    · exact Nat.lt_of_le_of_lt (UInt32.le_iff_toNat_le.mp h) (by decide)
    · exact Nat.lt_of_le_of_lt (UInt32.le_iff_toNat_le.mp h) (by decide)
  rw [← Char.ofNat_toNat c] at h ⊢
  exact hall c.toNat hlt h

theorem hexBytes_flatMap (bytes : Bytes) : hexBytes (bytes.flatMap hexByte) = bytes := by
  have hdigit : ∀ n < 16, hexValue (Nat.digitChar n) = n := by decide
  induction bytes with
  | nil => rfl
  | cons byte bytes ih =>
    have hlt := byte.toNat_lt
    rw [List.flatMap_cons, hexByte, List.cons_append, List.singleton_append, hexBytes, ih, hdigit _ (by omega),
      hdigit _ (by omega), Nat.div_add_mod, UInt8.ofNat_toNat]

theorem flatMap_hexBytes {text : Text} (hhex : text.all isHexDigit = true) (heven : text.length % 2 = 0) :
    (hexBytes text).flatMap hexByte = text := by
  induction text using hexBytes.induct with
  | case1 high low rest ih =>
    simp only [List.all_cons, Bool.and_eq_true] at hhex
    obtain ⟨hhigh, hlow, hrest⟩ := hhex
    obtain ⟨hhigh, hhighlt⟩ := hexDigit_value hhigh
    obtain ⟨hlow, hlowlt⟩ := hexDigit_value hlow
    have hbyte : (UInt8.ofNat (16 * hexValue high + hexValue low)).toNat = 16 * hexValue high + hexValue low := by
      rw [UInt8.toNat_ofNat']
      omega
    have hdiv : (16 * hexValue high + hexValue low) / 16 = hexValue high := by omega
    have hmod : (16 * hexValue high + hexValue low) % 16 = hexValue low := by omega
    rw [List.length_cons, List.length_cons] at heven
    rw [hexBytes, List.flatMap_cons, hexByte, hbyte, hdiv, hmod, hhigh, hlow, ih hrest (by omega)]
    rfl
  | case2 text hshort =>
    match text with
    | [] => rfl
    | [c] => cases heven
    | high :: low :: rest => exact absurd rfl (hshort high low rest)

theorem len_hex {text : Text} (h : text.all isHexDigit = true) : Text.len text = text.length :=
  Text.len_of_ascii fun c hc => utf8Size_of_isHexDigit (List.all_eq_true.mp h c hc)

theorem length_flatMap_hexByte (bytes : Bytes) : (bytes.flatMap hexByte).length = 2 * bytes.length := by
  induction bytes with
  | nil => rfl
  | cons byte bytes ih =>
    rw [List.flatMap_cons, List.length_append, ih, List.length_cons, hexByte, List.length_cons, List.length_singleton]
    omega

theorem all_hexByte (bytes : Bytes) : (bytes.flatMap hexByte).all isHexDigit = true := by
  have hdigit : ∀ n < 16, isHexDigit (Nat.digitChar n) = true := by decide
  rw [List.all_eq_true]
  intro c hc
  obtain ⟨byte, -, hc⟩ := List.mem_flatMap.mp hc
  have hlt := byte.toNat_lt
  simp only [hexByte, List.mem_cons, List.not_mem_nil, or_false] at hc
  rcases hc with rfl | rfl
  · exact hdigit _ (by omega)
  · exact hdigit _ (by omega)

theorem MetadataOwner.exact : Exact MetadataOwner.Valid MetadataOwner.encode MetadataOwner.parse := by
  refine Exact.of_iff fun raw owner => ?_
  constructor
  · intro h
    unfold MetadataOwner.parse at h
    split at h
    · cases h
    · simp only [Option.bind_eq_bind, Option.bind_eq_some_iff, Prod.exists, splitOnce_eq_some,
        process_exact.parse_eq_some] at h
      obtain ⟨-, hex, ⟨-, rfl⟩, process, ⟨hprocess, rfl⟩, h⟩ := h
      split at h
      · cases h
      · rename_i hchecks
        simp only [Bool.or_eq_true, Bool.not_eq_true', not_or, decide_eq_true_eq, List.isEmpty_iff,
          Bool.not_eq_false, not_not] at hchecks
        obtain ⟨⟨⟨hne, hshort⟩, heven⟩, hhex⟩ := hchecks
        simp only [Option.bind_eq_some_iff, Text.fromUtf8_eq_some] at h
        obtain ⟨session, hsession, h⟩ := h
        split at h
        · cases h
        · rename_i hcontrol
          cases h
          rw [len_hex hhex] at hshort heven
          have htext : (Text.bytes session).flatMap hexByte = hex := by
            rw [hsession, flatMap_hexBytes hhex heven]
          have hlength : hex.length = 2 * Text.len session := by
            rw [← htext, length_flatMap_hexByte, Text.len]
          have hpos := List.length_pos_iff.mpr hne
          refine ⟨⟨hprocess.1, hprocess.2, by simp only; omega, by simp only; omega, by simpa using hcontrol⟩, ?_⟩
          rw [MetadataOwner.encode, htext]
  · rintro ⟨⟨hsound, hfits, hpos, hlong, hcontrol⟩, rfl⟩
    have hhex := all_hexByte (Text.bytes owner.session)
    have hlength := length_flatMap_hexByte (Text.bytes owner.session)
    have hlen := len_hex hhex
    have hbytes : (Text.bytes owner.session).length = Text.len owner.session := rfl
    have hcap : ¬ MetadataOwner.maxProcessBytes + 1 + 2048 < Text.len owner.encode := by
      have hprocess := len_processFields hsound hfits
      have hpipe : '|'.utf8Size = 1 := by decide
      rw [MetadataOwner.encode, Text.len_append, Text.len_cons, hpipe]
      omega
    have hsplit : splitOnce '|' owner.encode =
        some (processFields owner.process, (Text.bytes owner.session).flatMap hexByte) :=
      splitOnce_eq_some.mpr ⟨not_mem_processFields (by decide) (by decide), rfl⟩
    have hprocess := process_exact.parse_encode owner.process ⟨hsound, hfits⟩
    have hsession : Text.fromUtf8 (hexBytes ((Text.bytes owner.session).flatMap hexByte)) = some owner.session := by
      rw [hexBytes_flatMap]
      exact Text.fromUtf8_eq_some.mpr rfl
    have hchecks : (((Text.bytes owner.session).flatMap hexByte).isEmpty ||
        decide (2048 < Text.len ((Text.bytes owner.session).flatMap hexByte)) ||
        decide (Text.len ((Text.bytes owner.session).flatMap hexByte) % 2 ≠ 0) ||
        !((Text.bytes owner.session).flatMap hexByte).all isHexDigit) = false := by
      have hempty : ((Text.bytes owner.session).flatMap hexByte).isEmpty = false := by
        rw [List.isEmpty_eq_false_iff, ← List.length_pos_iff]
        omega
      have hshort : decide (2048 < Text.len ((Text.bytes owner.session).flatMap hexByte)) = false :=
        decide_eq_false (by omega)
      have heven : decide (Text.len ((Text.bytes owner.session).flatMap hexByte) % 2 ≠ 0) = false :=
        decide_eq_false (by omega)
      rw [hempty, hshort, heven, hhex]
      rfl
    unfold MetadataOwner.parse
    rw [if_neg hcap, hsplit]
    simp only [Option.bind_eq_bind, Option.bind_some, hprocess, hchecks, hsession, hcontrol, Bool.false_eq_true,
      if_false]

/-- **The codecs are exact.** Each reads back every valid value, so no length cap rejects one, and
each writes back the text it read, so two stored texts are the same exactly where their values are. -/
theorem codecs_exact :
    Exact PaneOwner.Valid PaneOwner.encode PaneOwner.parse ∧
    Exact CommitMarker.Valid CommitMarker.encode CommitMarker.parse ∧
    Exact PersistedResult.Valid PersistedResult.encode PersistedResult.parse ∧
    Exact NotificationClaim.Valid NotificationClaim.encode NotificationClaim.parse ∧
    Exact BlockedHistory.Valid BlockedHistory.encode BlockedHistory.parse ∧
    Exact MetadataUpdate.Valid MetadataUpdate.encode MetadataUpdate.parse ∧
    Exact MetadataOwner.Valid MetadataOwner.encode MetadataOwner.parse ∧
    Exact CollectorLease.Valid CollectorLease.encode CollectorLease.parse :=
  ⟨PaneOwner.exact, CommitMarker.exact, PersistedResult.exact, NotificationClaim.exact, BlockedHistory.exact,
    MetadataUpdate.exact, MetadataOwner.exact, CollectorLease.exact⟩

end TmuxAgents
