/-
The read half of a connection's pipe (`serve/wire.rs`): one bounded line in.

`next_line` looks at its reader's buffer until a newline shows, and holds no more of the line
than the cap. Of an overlong line only the fact is left, until the newline ends it.
-/
import TmuxAgents.Lib.BufRead
import TmuxAgents.Lib.Lines
import TmuxAgents.Lib.Lossy
import TmuxAgents.Lib.Utf8
import TmuxAgents.Serve.Session

namespace TmuxAgents.Serve.Wire

open Session (Incoming)

/-! ## Lines -/

/-- `String::from_utf8` of a line. -/
def decoded (line : List UInt8) : Incoming :=
  match Text.fromUtf8 line with
  | some text => .line text
  | none => .notUtf8

/-- What a read has of its line. -/
structure Held where
  buf : List UInt8 := []
  overrun : Bool := false
deriving DecidableEq

namespace Held

variable (cap : Nat) (held : Held) (available : List UInt8)

/-- The line ends at `pos` of what the reader shows. -/
def finish (pos : Nat) : Held :=
  let held := if !held.overrun && cap < held.buf.length + pos then { held with overrun := true } else held
  if !held.overrun then { held with buf := held.buf ++ available.take pos } else held

/-- The line goes on past what the reader shows. -/
def extend : Held :=
  let taken := available.length
  let held := if !held.overrun && cap < held.buf.length + taken then { buf := [], overrun := true } else held
  if !held.overrun then { held with buf := held.buf ++ available } else held

/-- What an ended line is read as. -/
def incoming : Incoming := if held.overrun then .tooLong else decoded held.buf

end Held

/-! ## Reads -/

section

variable {ρ ε : Type} (reader : BufRead ρ ε UInt8) (cap : Nat)

/-- The loop of `next_line`. -/
def nextLineFrom (held : Held) (r : ρ) : Except ε (Incoming × ρ) :=
  match _hfill : reader.fillBuf r with
  | .error err => .error err
  | .ok ([], r') => .ok (.eof, r')
  | .ok (b :: bs, r') =>
    match Lines.position Text.newline (b :: bs) with
    | some pos => .ok ((held.finish cap (b :: bs) pos).incoming, reader.consume r' (pos + 1))
    | none => nextLineFrom (held.extend cap (b :: bs)) (reader.consume r' (b :: bs).length)
termination_by (reader.rest r).length
decreasing_by exact reader.length_consume_lt _hfill

def nextLine (r : ρ) : Except ε (Incoming × ρ) := nextLineFrom reader cap {} r

/-- What so many reads in a row return. -/
def nextLines : Nat → ρ → Except ε (List Incoming)
  | 0, _ => .ok []
  | n + 1, r => do
    let (incoming, r) ← nextLine reader cap r
    let later ← nextLines n r
    return incoming :: later

/-- The loop of a read of `r` comes to hold `held`, with `r'` still to read. -/
inductive Loops (r : ρ) : Held → ρ → Prop
  | start : Loops r {} r
  | again {held : Held} {r' r'' : ρ} {b : UInt8} {bs : List UInt8} : Loops r held r' →
    reader.fillBuf r' = .ok (b :: bs, r'') → Lines.position Text.newline (b :: bs) = none →
    Loops r (held.extend cap (b :: bs)) (reader.consume r'' (b :: bs).length)

end

end TmuxAgents.Serve.Wire
