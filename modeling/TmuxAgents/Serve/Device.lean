/-
The paired-device store (`device.rs`): which remote devices exist, and what each is allowed
to ask for.

Its commands are functions of the records they load. `Distinct` records, of which no two
have an id or a name in common, stay so; what a command did to one device stays until
another command addresses that device.
-/
import Mathlib.Data.List.Basic
import Mathlib.Data.List.Nodup
import TmuxAgents.Lib.Text

namespace TmuxAgents.Serve

inductive Scope
  | read
  | actAnswer
  | actAlways
  | actSteer
deriving DecidableEq

/-- The scopes a pairing grants on its own: `act:always` is not among them. -/
def defaultScopes : List Scope := [.read, .actAnswer, .actSteer]

/-- One paired device. The key that nothing reads yet is left out. -/
structure Device where
  id : Text
  /-- What a grant or a revocation names. -/
  name : Text
  scopes : List Scope
  pairedAtMs : Nat
deriving DecidableEq

def Device.allows (device : Device) (scope : Scope) : Bool := device.scopes.contains scope

inductive DeviceError
  | io
  | parse
  | noSuchName (name : Text)
  | duplicateName (name : Text)
deriving DecidableEq

/-! ## The commands on the records they load -/

/-- One scope more, unless it is there. -/
def addScope (scopes : List Scope) (scope : Scope) : List Scope :=
  if scopes.contains scope then scopes else scopes ++ [scope]

/-- A command: what it addresses, and what it states. -/
inductive Command
  | pair (id name : Text) (extra : List Scope) (only : Bool) (nowMs : Nat)
  | grant (name : Text) (scope : Scope)
  | revoke (name : Text)
deriving DecidableEq

/-- The record a pairing states. `read` is implicit and cannot be dropped. -/
def pairedDevice (id name : Text) (extra : List Scope) (only : Bool) (nowMs : Nat) : Device where
  id := id
  name := name
  scopes := extra.foldl addScope (if only then [.read] else defaultScopes)
  pairedAtMs := nowMs

/-- Re-pairing one id replaces its record. A name that another id has is refused. -/
def pair (devices : List Device) (id name : Text) (extra : List Scope) (only : Bool) (nowMs : Nat) :
    Except DeviceError (List Device × Device) :=
  if devices.any fun device => device.name == name && device.id != id then .error (.duplicateName name)
  else
    let device := pairedDevice id name extra only nowMs
    match devices.findIdx? fun existing => existing.id == id with
    | some at_ => .ok (devices.set at_ device, device)
    | none => .ok (devices ++ [device], device)

def grant (devices : List Device) (name : Text) (scope : Scope) : Except DeviceError (List Device × Device) :=
  match devices.find? fun device => device.name == name, devices.findIdx? fun device => device.name == name with
  | some device, some at_ =>
    let updated := { device with scopes := addScope device.scopes scope }
    .ok (devices.set at_ updated, updated)
  | _, _ => .error (.noSuchName name)

/-- Removes the record, not a scope. -/
def revoke (devices : List Device) (name : Text) : Except DeviceError (List Device × Device) :=
  match devices.find? fun device => device.name == name, devices.findIdx? fun device => device.name == name with
  | some removed, some at_ => .ok (devices.eraseIdx at_, removed)
  | _, _ => .error (.noSuchName name)

/-- What a command writes, and the record it answers with. -/
def Command.apply (devices : List Device) : Command → Except DeviceError (List Device × Device)
  | pair id name extra only nowMs => Serve.pair devices id name extra only nowMs
  | grant name scope => Serve.grant devices name scope
  | revoke name => Serve.revoke devices name

/-- The record for an id. Absence is a revocation. -/
def recordOf (devices : List Device) (id : Text) : Option Device := devices.find? fun device => device.id == id

def Command.isPair : Command → Bool
  | pair .. => true
  | _ => false

def Command.isGrant : Command → Bool
  | grant .. => true
  | _ => false

/-! ## What a command does -/

/-- The ways a command changes the records, and the record it answers with. -/
inductive Applied : Command → List Device → List Device → Device → Prop
  | added {devices : List Device} {id name : Text} {extra : List Scope} {only : Bool} {nowMs : Nat}
    (fresh : ∀ other ∈ devices, other.id ≠ id) (free : ∀ other ∈ devices, other.name = name → other.id = id) :
    Applied (.pair id name extra only nowMs) devices (devices ++ [pairedDevice id name extra only nowMs])
      (pairedDevice id name extra only nowMs)
  | repaired {before after : List Device} {old : Device} {name : Text} {extra : List Scope} {only : Bool} {nowMs : Nat}
    (free : ∀ other ∈ before ++ old :: after, other.name = name → other.id = old.id) :
    Applied (.pair old.id name extra only nowMs) (before ++ old :: after)
      (before ++ pairedDevice old.id name extra only nowMs :: after) (pairedDevice old.id name extra only nowMs)
  | granted {before after : List Device} {old : Device} {scope : Scope} :
    Applied (.grant old.name scope) (before ++ old :: after)
      (before ++ { old with scopes := addScope old.scopes scope } :: after)
      { old with scopes := addScope old.scopes scope }
  | revoked {before after : List Device} {old : Device} :
    Applied (.revoke old.name) (before ++ old :: after) (before ++ after) old

/-- A record that is found stands between those before it and those after. -/
theorem split_of_findIdx? {α : Type} {p : α → Bool} {l : List α} {i : Nat} (h : l.findIdx? p = some i) :
    ∃ before a after, l = before ++ a :: after ∧ p a = true ∧ i = before.length ∧ l.find? p = some a := by
  obtain ⟨hi, hp, hbefore⟩ := List.findIdx?_eq_some_iff_getElem.mp h
  refine ⟨l.take i, l[i], l.drop (i + 1), ?_, hp, by simp [Nat.le_of_lt hi], ?_⟩
  · rw [List.getElem_cons_drop, List.take_append_drop]
  · refine List.find?_eq_some_iff_getElem.mpr ⟨hp, i, hi, rfl, fun j hj => ?_⟩
    simpa using hbefore j hj

theorem applied_of_apply {devices devices' : List Device} {command : Command} {device : Device}
    (h : command.apply devices = .ok (devices', device)) : Applied command devices devices' device := by
  cases command with
  | pair id name extra only nowMs =>
    simp only [Command.apply, pair] at h
    split at h
    · cases h
    rename_i hfree
    simp only [List.any_eq_true, Bool.and_eq_true, beq_iff_eq, bne_iff_ne, not_exists, not_and, not_not] at hfree
    split at h
    · rename_i i hidx
      obtain ⟨before, old, after, rfl, hid, rfl, -⟩ := split_of_findIdx? hidx
      obtain rfl := beq_iff_eq.mp hid
      rw [List.set_append_right _ _ (Nat.le_refl _), Nat.sub_self, List.set_cons_zero] at h
      cases h
      exact .repaired hfree
    · rename_i hidx
      cases h
      refine .added (fun other hother => ?_) hfree
      simpa using List.findIdx?_eq_none_iff.mp hidx other hother
  | grant name scope =>
    simp only [Command.apply, grant] at h
    split at h
    · rename_i old i hfind hidx
      obtain ⟨before, found, after, rfl, hname, rfl, hfound⟩ := split_of_findIdx? hidx
      obtain rfl : found = old := Option.some.inj (hfound.symm.trans hfind)
      obtain rfl := beq_iff_eq.mp hname
      rw [List.set_append_right _ _ (Nat.le_refl _), Nat.sub_self, List.set_cons_zero] at h
      cases h
      exact .granted
    · cases h
  | revoke name =>
    simp only [Command.apply, revoke] at h
    split at h
    · rename_i old i hfind hidx
      obtain ⟨before, found, after, rfl, hname, rfl, hfound⟩ := split_of_findIdx? hidx
      obtain rfl : found = old := Option.some.inj (hfound.symm.trans hfind)
      obtain rfl := beq_iff_eq.mp hname
      rw [List.eraseIdx_append_of_length_le (Nat.le_refl _), Nat.sub_self, List.eraseIdx_cons_zero] at h
      cases h
      exact .revoked
    · cases h

/-! ## Distinct records -/

theorem mem_middle {before after : List Device} {device other : Device} :
    other ∈ before ++ device :: after ↔ other = device ∨ other ∈ before ++ after := by
  rw [List.mem_append, List.mem_cons, List.mem_append, or_left_comm]

/-- No two records have an id or a name in common. -/
structure Distinct (devices : List Device) : Prop where
  ids : (devices.map Device.id).Nodup
  names : (devices.map Device.name).Nodup

theorem Distinct.nil : Distinct [] := ⟨List.nodup_nil, List.nodup_nil⟩

theorem Distinct.id_ne {before after : List Device} {old : Device} (h : Distinct (before ++ old :: after)) :
    ∀ other ∈ before ++ after, other.id ≠ old.id := by
  have hids := h.ids
  rw [List.map_append, List.map_cons, List.nodup_middle, List.nodup_cons, ← List.map_append] at hids
  intro other hother heq
  exact hids.1 (List.mem_map.mpr ⟨other, hother, heq⟩)

/-- A record in the place of another, with an id and a name of its own. -/
theorem Distinct.replace {before after : List Device} {old device : Device} (h : Distinct (before ++ old :: after))
    (hid : device.id = old.id) (hname : ∀ other ∈ before ++ after, other.name ≠ device.name) :
    Distinct (before ++ device :: after) := by
  obtain ⟨hids, hnames⟩ := h
  constructor
  · rwa [List.map_append, List.map_cons, hid, ← List.map_cons, ← List.map_append]
  · rw [List.map_append, List.map_cons, List.nodup_middle, List.nodup_cons, ← List.map_append] at hnames ⊢
    refine ⟨fun hmem => ?_, hnames.2⟩
    obtain ⟨other, hother, heq⟩ := List.mem_map.mp hmem
    exact hname other hother heq

theorem Distinct.applied {command : Command} {devices devices' : List Device} {device : Device}
    (h : Distinct devices) (ha : Applied command devices devices' device) : Distinct devices' := by
  cases ha with
  | added fresh free =>
    constructor
    · rw [List.map_append]
      refine List.nodup_append.mpr ⟨h.ids, List.nodup_singleton _, fun a ha b hb => ?_⟩
      obtain ⟨other, hother, rfl⟩ := List.mem_map.mp ha
      rw [List.map_singleton, List.mem_singleton] at hb
      rw [hb]
      exact fresh other hother
    · rw [List.map_append]
      refine List.nodup_append.mpr ⟨h.names, List.nodup_singleton _, fun a ha b hb heq => ?_⟩
      obtain ⟨other, hother, rfl⟩ := List.mem_map.mp ha
      rw [List.map_singleton, List.mem_singleton] at hb
      exact fresh other hother (free other hother (heq.trans hb))
  | repaired free =>
    exact h.replace rfl fun other hother heq => h.id_ne other hother (free other (mem_middle.mpr (.inr hother)) heq)
  | granted =>
    refine h.replace rfl fun other hother heq => ?_
    have hnames := h.names
    rw [List.map_append, List.map_cons, List.nodup_middle, List.nodup_cons, ← List.map_append] at hnames
    exact hnames.1 (List.mem_map.mpr ⟨other, hother, heq⟩)
  | revoked =>
    rename_i before after
    have hsub : (before ++ after).Sublist (before ++ device :: after) :=
      (List.sublist_cons_self device after).append_left before
    exact ⟨h.ids.sublist (hsub.map _), h.names.sublist (hsub.map _)⟩

/-! ## One device -/

/-- Nothing but a pairing brings an id back. -/
theorem Applied.absent {command : Command} {devices devices' : List Device} {device : Device}
    (ha : Applied command devices devices' device) {id : Text} (h : ∀ other ∈ devices, other.id ≠ id)
    (hpair : command.isPair = true → device.id ≠ id) : ∀ other ∈ devices', other.id ≠ id := by
  intro other hother
  cases ha with
  | added fresh free =>
    rcases List.mem_append.mp hother with hother | hother
    · exact h other hother
    · rw [List.mem_singleton.mp hother]
      exact hpair rfl
  | repaired free =>
    rcases mem_middle.mp hother with rfl | hother
    · exact hpair rfl
    · exact h other (mem_middle.mpr (.inr hother))
  | granted =>
    rename_i before after old scope
    rcases mem_middle.mp hother with rfl | hother
    · exact h old (mem_middle.mpr (.inl rfl))
    · exact h other (mem_middle.mpr (.inr hother))
  | revoked => exact h other (mem_middle.mpr (.inr hother))

/-- A revoked device has no record. -/
theorem Applied.revoked_absent {name : Text} {devices devices' : List Device} {device : Device}
    (ha : Applied (.revoke name) devices devices' device) (h : Distinct devices) :
    ∀ other ∈ devices', other.id ≠ device.id := by
  cases ha with
  | revoked => exact h.id_ne

/-- The device with this id has the scope. -/
def Granted (devices : List Device) (id : Text) (scope : Scope) : Prop :=
  ∃ device ∈ devices, device.id = id ∧ scope ∈ device.scopes

theorem mem_addScope {scopes : List Scope} {scope scope' : Scope} :
    scope' ∈ addScope scopes scope ↔ scope' ∈ scopes ∨ scope' = scope := by
  unfold addScope
  split
  · rename_i hmem
    rw [List.contains_iff_mem] at hmem
    constructor
    · exact .inl
    · rintro (h | rfl)
      · exact h
      · exact hmem
  · rw [List.mem_append, List.mem_singleton]

theorem Applied.granted_granted {name : Text} {scope : Scope} {devices devices' : List Device} {device : Device}
    (ha : Applied (.grant name scope) devices devices' device) : Granted devices' device.id scope := by
  cases ha with
  | granted => exact ⟨_, mem_middle.mpr (.inl rfl), rfl, mem_addScope.mpr (.inr rfl)⟩

/-- Nothing but a revocation or a pairing of the device takes a scope from it. -/
theorem Applied.still_granted {command : Command} {devices devices' : List Device} {device : Device}
    (ha : Applied command devices devices' device) {id : Text} {scope : Scope} (h : Granted devices id scope)
    (hgrant : command.isGrant = false → device.id ≠ id) : Granted devices' id scope := by
  obtain ⟨found, hfound, rfl, hscope⟩ := h
  cases ha with
  | added fresh free => exact ⟨found, List.mem_append_left _ hfound, rfl, hscope⟩
  | repaired free =>
    rcases mem_middle.mp hfound with rfl | hfound
    · exact absurd rfl (hgrant rfl)
    · exact ⟨found, mem_middle.mpr (.inr hfound), rfl, hscope⟩
  | granted =>
    rcases mem_middle.mp hfound with rfl | hfound
    · exact ⟨_, mem_middle.mpr (.inl rfl), rfl, mem_addScope.mpr (.inl hscope)⟩
    · exact ⟨found, mem_middle.mpr (.inr hfound), rfl, hscope⟩
  | revoked =>
    rcases mem_middle.mp hfound with rfl | hfound
    · exact absurd rfl (hgrant rfl)
    · exact ⟨found, hfound, rfl, hscope⟩

end TmuxAgents.Serve
