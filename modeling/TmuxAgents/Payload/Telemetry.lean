/-
Context readings from a rollout's text (`telemetry.rs`): the newest `token_count`
line decides.

Floating point is a parameter: a set of values with the operations the code uses.
-/
import TmuxAgents.Dispatch.SlotText
import TmuxAgents.Payload.Field

namespace TmuxAgents

/-- The `f64` operations of the readings. -/
structure F64 (V : Type) where
  parse : Text → Option V
  zero : V
  hundred : V
  le : V → V → Bool
  lt : V → V → Bool
  div : V → V → V
  mul : V → V → V
  round : V → V
  clamp : V → V → V → V
  toU8 : V → Nat

namespace Telemetry

open Payload (quoted afterField)

structure ContextReport where
  session : Option Text
  pct : Option Nat
  tokens : Option Nat
deriving DecidableEq

section

variable {V : Type} (f64 : F64 V)

/-- What a number's token is made of. -/
def isNumberChar (c : Char) : Bool := ('0' ≤ c ∧ c ≤ '9') ∨ c = '.' ∨ c = '-' ∨ c = '+' ∨ c = 'e' ∨ c = 'E'

def findNumber (payload key : Text) : Option V :=
  (afterField payload key).bind fun rest =>
    let token := rest.takeWhile isNumberChar
    if token.isEmpty then none else f64.parse token

def percent (used window : V) : Nat :=
  f64.toU8 (f64.clamp (f64.round (f64.mul (f64.div used window) f64.hundred)) f64.zero f64.hundred)

/-- From the first place a text stands. -/
def fromFirst (text needle : Text) : Option Text := (Text.splitOnce needle text).map fun parts => needle ++ parts.2

/-- The percent of one rollout line, if it is a computable record. -/
def codexLinePct (line : Text) : Option Nat :=
  if ¬quoted "token_count".toList <:+: line then none
  else
    (findNumber f64 line "model_context_window".toList).bind fun window =>
      if f64.le window f64.zero then none
      else
        (fromFirst line (quoted "total_token_usage".toList)).bind fun usage =>
          (findNumber f64 usage "total_tokens".toList).bind fun used =>
            if f64.lt used f64.zero then none else some (percent f64 used window)

/-- The newest computable line of a rollout's text. -/
def parseCodexRollout (payload : Text) : Option ContextReport :=
  let pct := (SlotText.lines payload).foldl (fun pct line =>
    match codexLinePct f64 line with
    | some p => some p
    | none => pct) none
  pct.map fun p => { session := none, pct := some p, tokens := none }

end

end Telemetry

end TmuxAgents
