/-
The push probe (`control.rs`): whether tmux delivers a pane's output to a control client at all.

The client is watched for a marker, through reads of any size and with no more of the stream kept
than a marker less one byte; the verdict is the one the whole stream gives (`probe_exact`).
-/
import TmuxAgents.Control.Decoder
import TmuxAgents.Lib.Window

namespace TmuxAgents.Control

/-- `PROBE_MARKER` -/
def probeMarker : Bytes := ascii "TMA_PUSH_PROBE"

/-- Verdict of the push probe. -/
inductive ProbeOutcome
  | available
  /-- It erred: push is assumed to work. -/
  | assumedAvailable
  | unavailable
deriving DecidableEq

/-- What one pass of the watch finds. -/
inductive ProbeRead
  /-- The time is up. -/
  | expired
  /-- Nothing to read yet. -/
  | idle
  | chunk (bytes : Bytes)
  | eof
  | failed

/-- What the watch returns. -/
inductive ProbeVerdict
  | delivered
  | silent
  | failed
deriving DecidableEq

/-- `probe_watch`, which has not returned where the reads run out. -/
def probeWatch (buf : Bytes) : List ProbeRead → Option ProbeVerdict
  | [] => none
  | .expired :: _ => some .silent
  | .idle :: reads => probeWatch buf reads
  | .eof :: _ => some .silent
  | .failed :: _ => some .failed
  | .chunk bytes :: reads =>
    if probeMarker <:+: buf ++ bytes then some .delivered
    else probeWatch (Window.keep probeMarker (buf ++ bytes)) reads

/-- What `probe_push` makes of it. The sessions are `none` where the probe's could not be made, and the one to
watch is `none` where there is no other. -/
def probePush (sessions : Option (Option (List ProbeRead))) : Option ProbeOutcome :=
  match sessions with
  | none => some .assumedAvailable
  | some none => some .available
  | some (some reads) => (probeWatch [] reads).map fun watched =>
    match watched with
    | .delivered => .available
    | .silent => .unavailable
    | .failed => .assumedAvailable

/-! ## The whole stream -/

/-- The bytes that came before the watch ended. -/
def received : List ProbeRead → Bytes
  | .idle :: reads => received reads
  | .chunk bytes :: reads => bytes ++ received reads
  | .expired :: _ => []
  | .eof :: _ => []
  | .failed :: _ => []
  | [] => []

/-- How it ends where the marker never came. -/
def ending : List ProbeRead → Option ProbeVerdict
  | [] => none
  | .expired :: _ => some .silent
  | .idle :: reads => ending reads
  | .eof :: _ => some .silent
  | .failed :: _ => some .failed
  | .chunk _ :: reads => ending reads

/-- A watch from a buffer that holds what is kept of what came before. -/
theorem probeWatch_keep {before : Bytes} (hbefore : ¬ probeMarker <:+: before) (reads : List ProbeRead) :
    probeWatch (Window.keep probeMarker before) reads =
      if probeMarker <:+: before ++ received reads then some .delivered else ending reads := by
  induction reads generalizing before with
  | nil => rw [received, List.append_nil, if_neg hbefore, probeWatch, ending]
  | cons read reads ih =>
    cases read with
    | expired => rw [received, List.append_nil, if_neg hbefore, probeWatch, ending]
    | idle => exact ih hbefore
    | eof => rw [received, List.append_nil, if_neg hbefore, probeWatch, ending]
    | failed => rw [received, List.append_nil, if_neg hbefore, probeWatch, ending]
    | chunk bytes =>
      rw [probeWatch, received, ending, ← List.append_assoc]
      by_cases hfound : probeMarker <:+: before ++ bytes
      · have hwhole : probeMarker <:+: before ++ bytes ++ received reads :=
          hfound.trans (List.prefix_append _ _).isInfix
        rw [if_pos ((Window.infix_append_iff_keep hbefore bytes).mp hfound), if_pos hwhole]
      · rw [if_neg fun h => hfound ((Window.infix_append_iff_keep hbefore bytes).mpr h), Window.keep_keep_append, ih hfound]

/-- **The probe reads the whole stream.** However the client's output arrives, the watch finds the marker exactly where it
stands in all that came before the watch ended, and ends as the reads do where it does not; so push is found to work
where the marker came, or where there was no session to watch, and found not to where the output ended without. -/
theorem probe_exact (reads : List ProbeRead) :
    probeWatch [] reads = (if probeMarker <:+: received reads then some .delivered else ending reads) ∧
      ∀ sessions, (probePush sessions = some .available ↔
          sessions = some none ∨ ∃ reads, sessions = some (some reads) ∧ probeMarker <:+: received reads) ∧
        (probePush sessions = some .unavailable ↔
          ∃ reads, sessions = some (some reads) ∧ ¬ probeMarker <:+: received reads ∧ ending reads = some .silent) := by
  have hwatch : ∀ reads, probeWatch [] reads = if probeMarker <:+: received reads then some .delivered else ending reads := by
    intro reads
    have hnone : ¬ probeMarker <:+: [] := by
      rw [List.infix_nil]
      decide
    have h := probeWatch_keep hnone reads
    rwa [Window.keep_nil, List.nil_append] at h
  have hending : ∀ reads, ending reads ≠ some .delivered := by
    intro reads
    induction reads with
    | nil => simp [ending]
    | cons read reads ih =>
      cases read with
      | idle => exact ih
      | chunk bytes => exact ih
      | expired => simp [ending]
      | eof => simp [ending]
      | failed => simp [ending]
  refine ⟨hwatch reads, fun sessions => ?_⟩
  rcases sessions with _ | _ | reads
  · simp [probePush]
  · simp [probePush]
  · have hcases := hending reads
    simp only [probePush, hwatch]
    by_cases hfound : probeMarker <:+: received reads
    · simp [hfound]
    · rw [if_neg hfound]
      rcases hend : ending reads with _ | watched
      · simp [hfound, hend]
      · cases watched with
        | delivered => exact absurd hend hcases
        | silent => simp [hfound, hend]
        | failed => simp [hfound, hend]

end TmuxAgents.Control
