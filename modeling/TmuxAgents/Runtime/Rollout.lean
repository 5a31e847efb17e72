/-
The end-anchored scan of a rollout file (`rollout.rs`): the window grows from
the end of the file until its whole lines hold a record, up to a cap.

The file does not change: a read is a part of its content.
-/
import TmuxAgents.Lib.Lossy
import TmuxAgents.Payload.Telemetry

namespace TmuxAgents.Rollout

open Telemetry (parseCodexRollout)

def tailWindow : Nat := 64 * 1024

def scanCap : Nat := 1024 * 1024

/-- The whole lines of a window: a line cut at its start goes, unless the window starts at the
head of the file, and so does an unfinished one. -/
def cleanWindow (bytes : List UInt8) (dropLeading : Bool) : Text :=
  let s := Text.lossy bytes
  match (if dropLeading then (Lines.position '\n' s).map (· + 1) else some 0) with
  | none => []
  | some start =>
    match Lines.rposition '\n' s with
    | none => []
    | some last => if last + 1 ≤ start then [] else (s.take (last + 1)).drop start

section

variable {V : Type} (f64 : F64 V)

/-- Reading from a window on. -/
def readScanFrom (content : List UInt8) (size window : Nat) : Text :=
  let start := size - window
  let blob := cleanWindow ((content.drop start).take (size - start)) (0 < start)
  if (parseCodexRollout f64 blob).isSome ∨ start = 0 ∨ scanCap ≤ window then blob
  else readScanFrom content size (min (window + tailWindow) scanCap)
termination_by scanCap - window
decreasing_by
  rename_i hgoes
  simp only [not_or] at hgoes
  simp only [tailWindow]
  omega

def readScan (content : List UInt8) (size : Nat) : Text := readScanFrom f64 content size tailWindow

/-- The percent parsed from what was read. -/
def pct (blob : Text) : Option Nat := (parseCodexRollout f64 blob).bind Telemetry.ContextReport.pct

end

end TmuxAgents.Rollout
