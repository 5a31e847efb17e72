/-
The single-flight pane lock: one pane option holding
`<expiry>:<nonce>:<pid>:<name>`, written by conditional formats only.

An invocation is known by the nonce it draws (`Nonce`; nonces never repeat), so
`Lock.calls` is keyed by nonces. Every read and every conditional write of the
option is one step (`Lock.act`).
-/
import TmuxAgents.Lib.Text
import TmuxAgents.Lib.Trace

namespace TmuxAgents.PaneLock

/-- 32 lowercase hex characters. -/
structure Nonce where
  text : Text
  length : text.length = 32
  hex : ∀ c ∈ text, c.isDigit = true ∨ 'a' ≤ c ∧ c ≤ 'f'
  deriving DecidableEq

/-- An action name: a token without a colon. -/
structure Name where
  text : Text
  plain : ':' ∉ text
  deriving DecidableEq

/-- `<expiry_ms>:<nonce>:<pid>:<name>`. -/
structure LockValue where
  expiryMs : UInt64
  nonce : Text
  pid : UInt32
  name : Text
  deriving DecidableEq

namespace LockValue

def encode (value : LockValue) : Text :=
  Text.decimal value.expiryMs.toNat ++ ':' :: (value.nonce ++ ':' ::
    (Text.decimal value.pid.toNat ++ ':' :: value.name))

def parse (raw : Text) : Option LockValue :=
  match Text.splitn 4 ':' raw with
  | [expiryMs, nonce, pid, name] =>
    match Text.parseUnsigned (2 ^ 64) expiryMs, Text.parseUnsigned (2 ^ 32) pid with
    | some expiryMs, some pid =>
      if nonce.isEmpty then none
      else some { expiryMs := .ofNat expiryMs, nonce := nonce, pid := .ofNat pid, name := name }
    | _, _ => none
  | _ => none

end LockValue

/-- What one invocation writes: its arguments under the nonce it drew. -/
structure Args where
  expiryMs : UInt64
  pid : UInt32
  name : Name
  deriving DecidableEq

def Args.value (args : Args) (nonce : Nonce) : LockValue where
  expiryMs := args.expiryMs
  nonce := nonce.text
  pid := args.pid
  name := args.name.text

/-! ## The conditional formats -/

/-- `ACQUIRE_GUARD`: the option is empty, or its leading digits are numerically below `now`. No digits
compare as zero. -/
def acquireGuard (nowMs : UInt64) (stored : Text) : Bool :=
  stored.isEmpty || decide (Nat.ofDigitChars 10 (Text.leadingDigits stored) 0 < nowMs.toNat)

/-- `acquire_value`, expanded on the stored value. -/
def acquireValue (nowMs : UInt64) (new stored : Text) : Text := if acquireGuard nowMs stored then new else stored

/-- `NONCE_MATCH`: the stored value carries the nonce as a colon-delimited field. -/
def nonceMatch (nonce : Nonce) (stored : Text) : Bool := Text.hasField ':' nonce.text stored

/-- `nonce_conditional_value`, expanded on the stored value. -/
def nonceConditionalValue (nonce : Nonce) (new stored : Text) : Text :=
  if nonceMatch nonce stored then new else stored

/-! ## Invocations -/

inductive Acquire
  | acquired (value : LockValue)
  | contended
  deriving DecidableEq

/-- How far an invocation's `acquire` is. -/
inductive Call
  /-- Not begun. -/
  | idle
  /-- Past the liveness pre-check, about to write. -/
  | checked (nowMs : UInt64) (args : Args)
  /-- Past its write, about to read back. -/
  | wrote (args : Args)
  | returned (result : Acquire)
  deriving DecidableEq

/-- The pane's option, and where every invocation stands. -/
structure Lock where
  stored : Text
  calls : Nonce → Call

def Lock.unlocked : Lock where
  stored := []
  calls := fun _ => .idle

inductive Event
  /-- An acquire write that passed its guard, and what it replaced. -/
  | took (nonce : Nonce) (args : Args) (nowMs : UInt64) (replaced : Text)
  /-- An acquire write that held the stored value. -/
  | held (nonce : Nonce) (nowMs : UInt64)
  | returned (nonce : Nonce) (result : Acquire)
  | cleared (nonce : Nonce)
  | rewrote (nonce : Nonce) (args : Args)
  /-- `rewrite` returned whether its value was read back. -/
  | landed (nonce : Nonce) (was : Bool)
  deriving DecidableEq

inductive Op
  /-- The pre-check: `readable` is whether the option could be read, `alive` what `pid_alive` says of the
  stored pid. -/
  | check (nonce : Nonce) (nowMs : UInt64) (args : Args) (readable alive : Bool)
  | write (nonce : Nonce)
  | readBack (nonce : Nonce)
  | clear (nonce : Nonce)
  | rewrite (nonce : Nonce) (args : Args)
  | rewriteBack (nonce : Nonce) (args : Args)
  deriving DecidableEq

namespace Lock

def setCall (lock : Lock) (nonce : Nonce) (call : Call) : Lock :=
  { lock with calls := fun n => if n = nonce then call else lock.calls n }

/-- An expired lock whose holder is alive is not reclaimed. -/
def preCheck (lock : Lock) (nowMs : UInt64) (readable alive : Bool) : Bool :=
  readable && match LockValue.parse lock.stored with
    | some held => decide (held.expiryMs < nowMs) && alive
    | none => false

def act (lock : Lock) : Op → List Event × Lock
  | .check nonce nowMs args readable alive =>
    match lock.calls nonce with
    | .idle =>
      if lock.preCheck nowMs readable alive then
        ([.returned nonce .contended], lock.setCall nonce (.returned .contended))
      else ([], lock.setCall nonce (.checked nowMs args))
    | _ => ([], lock)
  | .write nonce =>
    match lock.calls nonce with
    | .checked nowMs args =>
      let stored := acquireValue nowMs (args.value nonce).encode lock.stored
      let event : Event := if acquireGuard nowMs lock.stored then .took nonce args nowMs lock.stored else .held nonce nowMs
      ([event], { lock.setCall nonce (.wrote args) with stored := stored })
    | _ => ([], lock)
  | .readBack nonce =>
    match lock.calls nonce with
    | .wrote args =>
      let result : Acquire := match LockValue.parse lock.stored with
        | some held => if held.nonce = nonce.text then .acquired (args.value nonce) else .contended
        | none => .contended
      ([.returned nonce result], lock.setCall nonce (.returned result))
    | _ => ([], lock)
  | .clear nonce => ([.cleared nonce], { lock with stored := nonceConditionalValue nonce [] lock.stored })
  | .rewrite nonce args =>
    ([.rewrote nonce args],
      { lock with stored := nonceConditionalValue nonce (args.value nonce).encode lock.stored })
  | .rewriteBack nonce args => ([.landed nonce (lock.stored = (args.value nonce).encode)], lock)

end Lock

/-! ## The value as text -/

theorem Nonce.plain (nonce : Nonce) : ':' ∉ nonce.text := by
  intro h
  rcases nonce.hex ':' h with hd | ⟨ha, -⟩
  · exact absurd hd (by decide)
  · exact absurd ha (by decide)

theorem Nonce.text_injective {a b : Nonce} (h : a.text = b.text) : a = b := by
  cases a
  cases b
  cases h
  rfl

theorem Nonce.ne_nil (nonce : Nonce) : nonce.text ≠ [] := by
  intro h
  have hlen := nonce.length
  rw [h] at hlen
  cases hlen

/-- A pid is shorter than a nonce. -/
theorem Nonce.ne_pid (nonce : Nonce) (pid : UInt32) : nonce.text ≠ Text.decimal pid.toNat := by
  intro h
  have hlt := UInt32.toNat_lt pid
  have hlen : (Text.decimal pid.toNat).length ≤ 10 := Text.length_decimal_le (by decide) (by omega)
  rw [← h, nonce.length] at hlen
  omega

theorem colon_not_mem_decimal (n : Nat) : ':' ∉ Text.decimal n := Text.not_mem_decimal (by decide) n

@[simp] theorem parse_encode (args : Args) (nonce : Nonce) :
    LockValue.parse (args.value nonce).encode = some (args.value nonce) := by
  have hsplit : Text.splitn 4 ':' (args.value nonce).encode =
      [Text.decimal args.expiryMs.toNat, nonce.text, Text.decimal args.pid.toNat, args.name.text] := by
    rw [LockValue.encode, Text.splitn_append (colon_not_mem_decimal _), Args.value,
      Text.splitn_append nonce.plain, Text.splitn_append (colon_not_mem_decimal _)]
    rfl
  have hne : nonce.text.isEmpty = false := List.isEmpty_eq_false_iff.mpr nonce.ne_nil
  rw [LockValue.parse, hsplit]
  simp only [Text.parseUnsigned_decimal (UInt64.toNat_lt args.expiryMs),
    Text.parseUnsigned_decimal (UInt32.toNat_lt args.pid), hne, Bool.false_eq_true, if_false, UInt64.ofNat_toNat,
    UInt32.ofNat_toNat]
  rfl

@[simp] theorem parse_nil : LockValue.parse [] = none := rfl

theorem encode_ne_nil (value : LockValue) : value.encode ≠ [] := by
  simp [LockValue.encode]

/-- The fnmatch finds a nonce in an encoded value exactly when it is the value's own. -/
theorem nonceMatch_encode {args : Args} {nonce other : Nonce} :
    nonceMatch other (args.value nonce).encode = true ↔ other = nonce := by
  rw [nonceMatch, Text.hasField_iff]
  constructor
  · rintro ⟨before, after, h⟩
    rw [LockValue.encode] at h
    rcases Text.split_first (colon_not_mem_decimal _) h with ⟨-, hrest⟩ | ⟨more, -, hrest⟩
    · exact Nonce.text_injective (Text.field_unique other.plain nonce.plain hrest).1
    · rcases Text.split_first nonce.plain hrest with ⟨-, hrest⟩ | ⟨more, -, hrest⟩
      · exact absurd (Text.field_unique other.plain (colon_not_mem_decimal _) hrest).1 (other.ne_pid _)
      · rcases Text.split_first (colon_not_mem_decimal _) hrest with ⟨-, hname⟩ | ⟨more, -, hname⟩
        · refine absurd ?_ args.name.plain
          rw [show args.name.text = _ from hname.symm]
          exact List.mem_append_right _ List.mem_cons_self
        · refine absurd ?_ args.name.plain
          rw [show args.name.text = _ from hname]
          exact List.mem_append_right _ List.mem_cons_self
  · rintro rfl
    exact ⟨_, _, rfl⟩

theorem leadingDigits_encode (value : LockValue) :
    Text.leadingDigits value.encode = Text.decimal value.expiryMs.toNat :=
  Text.leadingDigits_decimal_append (by decide)

/-- The guard passes over an encoded value exactly when its expiry is past. -/
theorem acquireGuard_encode {nowMs : UInt64} {value : LockValue} :
    acquireGuard nowMs value.encode = true ↔ value.expiryMs < nowMs := by
  have hne : value.encode.isEmpty = false := List.isEmpty_eq_false_iff.mpr (encode_ne_nil value)
  rw [acquireGuard, hne, leadingDigits_encode, Text.ofDigitChars_decimal, Bool.false_or, decide_eq_true_eq]
  exact UInt64.lt_iff_toNat_lt.symm

end TmuxAgents.PaneLock
