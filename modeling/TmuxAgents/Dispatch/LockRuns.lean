/-
The pane lock over whole runs, whatever the clocks say.

The stored value only ever changes in three ways (`Change`), so an invocation
that took the lock keeps it until it clears it or someone takes it past the
expiry it stored (`single_flight`).
-/
import TmuxAgents.Dispatch.Lock

namespace TmuxAgents.PaneLock

namespace Lock

/-- The option holds a value of this invocation's. -/
def Carries (lock : Lock) (nonce : Nonce) : Prop := ∃ args : Args, lock.stored = (args.value nonce).encode

/-- The option is empty or holds an encoded value. -/
def Sound (lock : Lock) : Prop := lock.stored = [] ∨ ∃ nonce, lock.Carries nonce

theorem Carries.unique {lock : Lock} {a b : Nonce} (ha : lock.Carries a) (hb : lock.Carries b) : a = b := by
  obtain ⟨args, ha⟩ := ha
  obtain ⟨args', hb⟩ := hb
  have hparse := congrArg LockValue.parse (ha.symm.trans hb)
  rw [parse_encode, parse_encode, Option.some.injEq] at hparse
  exact Nonce.text_injective (congrArg LockValue.nonce hparse)

theorem Sound.nonceMatch {lock : Lock} (h : lock.Sound) {nonce : Nonce} :
    nonceMatch nonce lock.stored = true ↔ lock.Carries nonce := by
  rcases h with hnil | ⟨other, args, hother⟩
  · rw [hnil]
    refine ⟨fun hm => ?_, fun ⟨args, hs⟩ => absurd (hs.symm.trans hnil) (encode_ne_nil _)⟩
    obtain ⟨before, after, hn⟩ := Text.hasField_iff.mp hm
    simp at hn
  · rw [hother, nonceMatch_encode]
    constructor
    · rintro rfl
      exact ⟨args, hother⟩
    · exact fun hc => Carries.unique hc ⟨args, hother⟩

theorem Sound.parse {lock : Lock} (h : lock.Sound) {value : LockValue} {nonce : Nonce}
    (hv : LockValue.parse lock.stored = some value) (hn : value.nonce = nonce.text) : lock.Carries nonce := by
  rcases h with hnil | ⟨other, args, hother⟩
  · rw [hnil] at hv
    cases hv
  · rw [hother, parse_encode, Option.some.injEq] at hv
    rw [← hv] at hn
    exact Nonce.text_injective hn ▸ ⟨args, hother⟩

end Lock

/-! ## What a step can do -/

/-- How a step changes the stored value. -/
inductive Change (lock : Lock) : List Event → Lock → Prop
  | kept {out : List Event} {lock' : Lock} (stored : lock'.stored = lock.stored)
    (quiet : ∀ n args nowMs replaced, .took n args nowMs replaced ∉ out) : Change lock out lock'
  | took {nonce : Nonce} {args : Args} {nowMs : UInt64} {lock' : Lock} (call : lock.calls nonce = .checked nowMs args)
    (guard : acquireGuard nowMs lock.stored = true) (stored : lock'.stored = (args.value nonce).encode)
    (wrote : lock'.calls nonce = .wrote args) : Change lock [.took nonce args nowMs lock.stored] lock'
  | cleared {nonce : Nonce} {lock' : Lock} (carried : lock.Carries nonce) (stored : lock'.stored = []) :
    Change lock [.cleared nonce] lock'
  | rewrote {nonce : Nonce} {args : Args} {lock' : Lock} (carried : lock.Carries nonce)
    (stored : lock'.stored = (args.value nonce).encode) : Change lock [.rewrote nonce args] lock'

theorem Lock.act_change {lock : Lock} (h : lock.Sound) (op : Op) :
    Change lock (lock.act op).1 (lock.act op).2 := by
  cases op with
  | check nonce nowMs args readable alive =>
    simp only [Lock.act]
    split
    · split
      · exact .kept rfl fun _ _ _ _ => (by simp)
      · exact .kept rfl fun _ _ _ _ => (by simp)
    · exact .kept rfl fun _ _ _ _ => (by simp)
  | write nonce =>
    simp only [Lock.act]
    split
    · rename_i nowMs args hcall
      cases hguard : acquireGuard nowMs lock.stored with
      | true =>
        refine .took hcall hguard ?_ (if_pos rfl)
        show acquireValue nowMs (args.value nonce).encode lock.stored = _
        rw [acquireValue, hguard, if_pos rfl]
      | false =>
        refine .kept ?_ fun _ _ _ _ => (by simp)
        show acquireValue nowMs (args.value nonce).encode lock.stored = _
        rw [acquireValue, hguard, if_neg (by simp)]
    · exact .kept rfl fun _ _ _ _ => (by simp)
  | readBack nonce =>
    simp only [Lock.act]
    split
    · exact .kept rfl fun _ _ _ _ => (by simp)
    · exact .kept rfl fun _ _ _ _ => (by simp)
  | clear nonce =>
    by_cases hm : nonceMatch nonce lock.stored = true
    · exact .cleared (h.nonceMatch.mp hm) (if_pos hm)
    · exact .kept (if_neg hm) fun _ _ _ _ => (by simp [Lock.act])
  | rewrite nonce args =>
    by_cases hm : nonceMatch nonce lock.stored = true
    · exact .rewrote (h.nonceMatch.mp hm) (if_pos hm)
    · exact .kept (if_neg hm) fun _ _ _ _ => (by simp [Lock.act])
  | rewriteBack nonce args => exact .kept rfl fun _ _ _ _ => (by simp [Lock.act])

theorem Change.sound {lock lock' : Lock} {out : List Event} (hc : Change lock out lock') (h : lock.Sound) :
    lock'.Sound := by
  cases hc with
  | kept stored quiet =>
    rcases h with hnil | ⟨nonce, args, hn⟩
    · exact .inl (stored.trans hnil)
    · exact .inr ⟨nonce, args, stored.trans hn⟩
  | took call guard stored wrote => exact .inr ⟨_, _, stored⟩
  | cleared carried stored => exact .inl stored
  | rewrote carried stored => exact .inr ⟨_, _, stored⟩

/-- A value comes to be stored by its own invocation. -/
theorem Change.carries {lock lock' : Lock} {out : List Event} (hc : Change lock out lock') {nonce : Nonce}
    (h : lock'.Carries nonce) : lock.Carries nonce ∨ ∃ args nowMs, .took nonce args nowMs lock.stored ∈ out ∧
      lock.calls nonce = .checked nowMs args ∧ lock'.calls nonce = .wrote args := by
  cases hc with
  | kept stored quiet =>
    obtain ⟨args, hn⟩ := h
    exact .inl ⟨args, stored.symm.trans hn⟩
  | @took other args nowMs _ call guard stored wrote =>
    obtain rfl : nonce = other := Lock.Carries.unique h ⟨args, stored⟩
    exact .inr ⟨args, nowMs, List.mem_singleton_self _, call, wrote⟩
  | cleared carried stored =>
    obtain ⟨args, hn⟩ := h
    exact absurd (hn.symm.trans stored) (encode_ne_nil _)
  | @rewrote other args _ carried stored =>
    obtain rfl : nonce = other := Lock.Carries.unique h ⟨args, stored⟩
    exact .inl carried

/-- What an invocation returned, it returned on its own read. -/
theorem Lock.act_returned {lock : Lock} {op : Op} {nonce : Nonce} {result : Acquire}
    (h : .returned nonce result ∈ (lock.act op).1) :
    (lock.act op).2.calls nonce = .returned result ∧ (lock.act op).2.stored = lock.stored ∧
      (lock.calls nonce = .idle ∧ result = .contended ∨
        ∃ args, lock.calls nonce = .wrote args ∧ ((∃ value, LockValue.parse lock.stored = some value ∧
          value.nonce = nonce.text ∧ result = .acquired (args.value nonce)) ∨
          result = .contended ∧ ∀ value, LockValue.parse lock.stored = some value → value.nonce ≠ nonce.text)) := by
  cases op with
  | check n nowMs args readable alive =>
    simp only [Lock.act] at h ⊢
    split at h
    · rename_i hidle
      split at h
      · rename_i hpre
        obtain ⟨rfl, rfl⟩ := Event.returned.inj (List.mem_singleton.mp h)
        rw [if_pos hpre]
        exact ⟨if_pos rfl, rfl, .inl ⟨hidle, rfl⟩⟩
      · cases h
    · cases h
  | write n =>
    simp only [Lock.act] at h
    split at h
    · split at h <;> simp at h
    · cases h
  | readBack n =>
    simp only [Lock.act] at h ⊢
    split at h
    · rename_i args hwrote
      obtain ⟨rfl, hresult⟩ := Event.returned.inj (List.mem_singleton.mp h)
      refine ⟨(if_pos rfl).trans (congrArg Call.returned hresult.symm), rfl, .inr ⟨args, hwrote, ?_⟩⟩
      cases hparse : LockValue.parse lock.stored with
      | none =>
        rw [hparse] at hresult
        exact .inr ⟨hresult, fun value hv => (by cases hv)⟩
      | some value =>
        rw [hparse] at hresult
        by_cases hn : value.nonce = nonce.text
        · exact .inl ⟨value, rfl, hn, hresult.trans (if_pos hn)⟩
        · refine .inr ⟨hresult.trans (if_neg hn), fun v hv => ?_⟩
          obtain rfl := Option.some.inj hv
          exact hn
    · cases h
  | clear n => simp [Lock.act] at h
  | rewrite n args => simp [Lock.act] at h
  | rewriteBack n args => simp [Lock.act] at h

/-- How an invocation's call goes on. -/
inductive Call.Next : Call → Call → Prop
  | same (call : Call) : Next call call
  | checked {nowMs : UInt64} {args : Args} : Next .idle (.checked nowMs args)
  | refused : Next .idle (.returned .contended)
  | wrote {nowMs : UInt64} {args : Args} : Next (.checked nowMs args) (.wrote args)
  | returned {args : Args} {result : Acquire} : Next (.wrote args) (.returned result)

theorem Lock.next_setCall {lock : Lock} {nonce other : Nonce} {call : Call} (h : (lock.calls nonce).Next call) :
    (lock.calls other).Next ((lock.setCall nonce call).calls other) := by
  show Call.Next _ (if other = nonce then call else lock.calls other)
  split
  · rename_i heq
    exact heq ▸ h
  · exact .same _

theorem Lock.act_next (lock : Lock) (op : Op) (nonce : Nonce) :
    (lock.calls nonce).Next ((lock.act op).2.calls nonce) := by
  cases op with
  | check n nowMs args readable alive =>
    simp only [Lock.act]
    split
    · rename_i hidle
      split
      · exact next_setCall (hidle ▸ .refused)
      · exact next_setCall (hidle ▸ .checked)
    · exact .same _
  | write n =>
    simp only [Lock.act]
    split
    · rename_i nowMs args hchecked
      have hnext : (lock.calls n).Next (.wrote args) := hchecked ▸ .wrote
      exact next_setCall hnext
    · exact .same _
  | readBack n =>
    simp only [Lock.act]
    split
    · rename_i args hwrote
      exact next_setCall (hwrote ▸ .returned)
    · exact .same _
  | clear n => exact .same _
  | rewrite n args => exact .same _
  | rewriteBack n args => exact .same _

/-- The stored value is sound, and is of an invocation that wrote. -/
structure Lock.Written (lock : Lock) : Prop where
  sound : lock.Sound
  wrote : ∀ nonce, lock.Carries nonce →
    (∃ args, lock.calls nonce = .wrote args) ∨ ∃ result, lock.calls nonce = .returned result

theorem written_unlocked : Lock.unlocked.Written :=
  ⟨.inl rfl, fun _ ⟨_, h⟩ => absurd h.symm (encode_ne_nil _)⟩

theorem Lock.Written.step {lock : Lock} (h : lock.Written) (op : Op) : (lock.act op).2.Written := by
  have hc := act_change h.sound op
  refine ⟨hc.sound h.sound, fun nonce hcarries => ?_⟩
  rcases hc.carries hcarries with hbefore | ⟨args, nowMs, -, -, hwrote⟩
  · have hnext := act_next lock op nonce
    rcases h.wrote nonce hbefore with ⟨args, hcall⟩ | ⟨result, hcall⟩
    · rw [hcall] at hnext
      generalize (lock.act op).2.calls nonce = after at hnext
      cases hnext with
      | same => exact .inl ⟨args, rfl⟩
      | returned => exact .inr ⟨_, rfl⟩
    · rw [hcall] at hnext
      generalize (lock.act op).2.calls nonce = after at hnext
      cases hnext
      exact .inr ⟨result, rfl⟩
  · exact .inl ⟨args, hwrote⟩

/-! ## Contended -/

/-- The invocation has returned, and what is stored is not its own. -/
def Lock.Lost (lock : Lock) (nonce : Nonce) : Prop :=
  lock.calls nonce = .returned .contended ∧ ¬ lock.Carries nonce

theorem Lock.Written.lost {lock : Lock} (h : lock.Written) {op : Op} {nonce : Nonce}
    (hr : .returned nonce .contended ∈ (lock.act op).1) : (lock.act op).2.Lost nonce := by
  obtain ⟨hcall, hstored, hhow⟩ := act_returned hr
  refine ⟨hcall, ?_⟩
  rintro ⟨args, hcarries⟩
  have hbefore : lock.Carries nonce := ⟨args, hstored.symm.trans hcarries⟩
  rcases hhow with ⟨hidle, -⟩ | ⟨args', -, ⟨value, -, -, hacquired⟩ | ⟨-, hother⟩⟩
  · rcases h.wrote nonce hbefore with ⟨args', hcall⟩ | ⟨result, hcall⟩
    · rw [hidle] at hcall
      cases hcall
    · rw [hidle] at hcall
      cases hcall
  · cases hacquired
  · obtain ⟨args', hstored'⟩ := hbefore
    exact hother _ (by rw [hstored', parse_encode]) rfl

theorem Lock.Lost.step {lock : Lock} {nonce : Nonce} (h : lock.Lost nonce) (hw : lock.Written) (op : Op) :
    (lock.act op).2.Lost nonce := by
  constructor
  · have hnext := act_next lock op nonce
    rw [h.1] at hnext
    generalize (lock.act op).2.calls nonce = after at hnext
    cases hnext
    rfl
  · intro hcarries
    rcases (act_change hw.sound op).carries hcarries with hbefore | ⟨args, nowMs, -, hchecked, -⟩
    · exact h.2 hbefore
    · rw [h.1] at hchecked
      cases hchecked

/-! ## From a take on -/

/-- Someone took the lock past the expiry that was stored under the nonce. -/
def Outlived (nonce : Nonce) (shown : List Event) : Prop :=
  ∃ other args nowMs replaced value, .took other args nowMs replaced ∈ shown ∧
    LockValue.parse replaced = some value ∧ value.nonce = nonce.text ∧ value.expiryMs < nowMs

theorem Outlived.mono {nonce : Nonce} {shown shown' : List Event} (h : Outlived nonce shown)
    (hle : ∀ x ∈ shown, x ∈ shown') : Outlived nonce shown' := by
  obtain ⟨other, args, nowMs, replaced, value, hmem, hrest⟩ := h
  exact ⟨other, args, nowMs, replaced, value, hle _ hmem, hrest⟩

/-- Taking a lock that carries a nonce takes it past its expiry. -/
theorem Lock.Carries.outlived {lock : Lock} {nonce other : Nonce} {args : Args} {nowMs : UInt64}
    {shown : List Event} (h : lock.Carries nonce) (hguard : acquireGuard nowMs lock.stored = true)
    (hmem : .took other args nowMs lock.stored ∈ shown) : Outlived nonce shown := by
  obtain ⟨args', hstored⟩ := h
  rw [hstored] at hguard hmem
  exact ⟨other, args, nowMs, _, _, hmem, parse_encode args' nonce, rfl, acquireGuard_encode.mp hguard⟩

theorem Lock.Carries.step {lock lock' : Lock} {out : List Event} {nonce : Nonce} (h : lock.Carries nonce)
    (hc : Change lock out lock') : .cleared nonce ∈ out ∨ Outlived nonce out ∨ lock'.Carries nonce := by
  cases hc with
  | kept stored quiet =>
    obtain ⟨args, hn⟩ := h
    exact .inr (.inr ⟨args, stored.trans hn⟩)
  | took call guard stored wrote => exact .inr (.inl (h.outlived guard (List.mem_singleton_self _)))
  | cleared carried stored =>
    rw [h.unique carried]
    exact .inl (List.mem_singleton_self _)
  | @rewrote other args _ carried stored =>
    rw [h.unique carried]
    exact .inr (.inr ⟨args, stored⟩)

/-! ## Whole runs -/

/-- The steps of the invocations. -/
abbrev Lock.Step : Lock → List Event → Lock → Prop := Trace.Acts Lock.act fun _ _ => True

theorem Lock.Step.written {lock lock' : Lock} {out : List Event} (h : lock.Written) (hs : lock.Step out lock') :
    lock'.Written := by
  obtain ⟨op, -, hop⟩ := hs
  have hnext := h.step op
  rwa [hop] at hnext

theorem Lock.Step.change {lock lock' : Lock} {out : List Event} (h : lock.Written) (hs : lock.Step out lock') :
    Change lock out lock' := by
  obtain ⟨op, -, hop⟩ := hs
  have hc := act_change h.sound op
  rwa [hop] at hc

/-- What a step that shows a take did; it shows nothing else. -/
theorem Change.took_only {lock lock' : Lock} {before after : List Event} {nonce : Nonce} {args : Args}
    {nowMs : UInt64} {replaced : Text} (hc : Change lock (before ++ .took nonce args nowMs replaced :: after) lock') :
    after = [] ∧ replaced = lock.stored ∧ acquireGuard nowMs lock.stored = true ∧
      lock'.stored = (args.value nonce).encode := by
  have hmem : .took nonce args nowMs replaced ∈ before ++ .took nonce args nowMs replaced :: after := by simp
  generalize hout : before ++ .took nonce args nowMs replaced :: after = out at hc hmem
  cases hc with
  | kept stored quiet => exact absurd hmem (quiet _ _ _ _)
  | took call guard stored wrote =>
    obtain ⟨rfl, rfl, rfl, rfl⟩ := Event.took.inj (List.mem_singleton.mp hmem)
    have hlen := congrArg List.length hout
    simp only [List.length_append, List.length_cons, List.length_nil] at hlen
    exact ⟨List.length_eq_zero_iff.mp (by omega), rfl, guard, stored⟩
  | cleared carried stored => simp at hmem
  | rewrote carried stored => simp at hmem

theorem takes_between {lock lock' : Lock} {shown pre mid post : List Event} {a c : Nonce} {args args' : Args}
    {nowMs nowMs' : UInt64} {replaced replaced' : Text} (hw : lock.Written) (h : Trace Lock.Step lock shown lock')
    (hx : shown = pre ++ .took a args nowMs replaced :: mid ++ .took c args' nowMs' replaced' :: post) :
    .cleared a ∈ mid ∨ Outlived a (mid ++ [.took c args' nowMs' replaced']) := by
  refine Trace.between Lock.Written
    (fun x mid lock => ∀ a args nowMs replaced, x = .took a args nowMs replaced →
      .cleared a ∈ mid ∨ Outlived a mid ∨ lock.Carries a)
    (fun x mid y => ∀ a args nowMs replaced c args' nowMs' replaced', x = .took a args nowMs replaced →
      y = .took c args' nowMs' replaced' → .cleared a ∈ mid ∨ Outlived a (mid ++ [y]))
    (fun _ _ _ hw hs => hs.written hw) ?_ ?_ ?_ ?_ hw h hx a args nowMs replaced c args' nowMs' replaced' rfl rfl
  · rintro lock before x after lock' hw hs a args nowMs replaced rfl
    obtain ⟨-, -, -, hstored⟩ := (hs.change hw).took_only
    exact .inr (.inr ⟨args, hstored⟩)
  · rintro lock x mid out lock' hw hsince hs a args nowMs replaced rfl
    rcases hsince a args nowMs replaced rfl with hcleared | hout | hcarries
    · exact .inl (List.mem_append_left _ hcleared)
    · exact .inr (.inl (hout.mono fun x hx => List.mem_append_left _ hx))
    · rcases hcarries.step (hs.change hw) with hcleared | hout | hcarries
      · exact .inl (List.mem_append_right _ hcleared)
      · exact .inr (.inl (hout.mono fun x hx => List.mem_append_right _ hx))
      · exact .inr (.inr hcarries)
  · rintro lock before x mid y after lock' hw hs a args nowMs replaced c args' nowMs' replaced' rfl rfl
    rw [List.append_assoc, List.cons_append] at hs
    obtain ⟨hnil, -⟩ := (hs.change hw).took_only
    simp at hnil
  · rintro lock x mid before y after lock' hw hsince hs a args nowMs replaced c args' nowMs' replaced' rfl rfl
    obtain ⟨-, rfl, hguard, -⟩ := (hs.change hw).took_only
    rcases hsince a args nowMs replaced rfl with hcleared | hout | hcarries
    · exact .inl (List.mem_append_left _ hcleared)
    · exact .inr (hout.mono fun x hx => List.mem_append_left _ (List.mem_append_left _ hx))
    · exact .inr (hcarries.outlived hguard (List.mem_append_right _ (List.mem_singleton_self _)))

/-- What was ever stored was taken, and so was what was ever acquired. -/
structure Taken (shown : List Event) (lock : Lock) : Prop where
  written : lock.Written
  carries : ∀ nonce, lock.Carries nonce → ∃ args nowMs replaced, .took nonce args nowMs replaced ∈ shown
  acquired : ∀ nonce value, .returned nonce (.acquired value) ∈ shown →
    ∃ args nowMs replaced, .took nonce args nowMs replaced ∈ shown

theorem Taken.step {shown out : List Event} {lock lock' : Lock} (h : Taken shown lock) (hs : lock.Step out lock') :
    Taken (shown ++ out) lock' := by
  have hc := hs.change h.written
  refine ⟨hs.written h.written, fun nonce hcarries => ?_, fun nonce value hr => ?_⟩
  · rcases hc.carries hcarries with hbefore | ⟨args, nowMs, htook, -⟩
    · obtain ⟨args, nowMs, replaced, htook⟩ := h.carries nonce hbefore
      exact ⟨args, nowMs, replaced, List.mem_append_left _ htook⟩
    · exact ⟨args, nowMs, _, List.mem_append_right _ htook⟩
  · rcases List.mem_append.mp hr with hr | hr
    · obtain ⟨args, nowMs, replaced, htook⟩ := h.acquired nonce value hr
      exact ⟨args, nowMs, replaced, List.mem_append_left _ htook⟩
    · obtain ⟨op, -, hop⟩ := hs
      have hreturned : .returned nonce (.acquired value) ∈ (lock.act op).1 := by rw [hop]; exact hr
      obtain ⟨-, -, ⟨-, hcontended⟩ | ⟨args, -, ⟨v, hparse, hnonce, -⟩ | ⟨hcontended, -⟩⟩⟩ := Lock.act_returned hreturned
      · cases hcontended
      · obtain ⟨args, nowMs, replaced, htook⟩ := h.carries nonce (h.written.sound.parse hparse hnonce)
        exact ⟨args, nowMs, replaced, List.mem_append_left _ htook⟩
      · cases hcontended

/-- An invocation that returned `Contended` is never what is stored. -/
theorem contended_lost {lock lock' : Lock} {shown : List Event} {nonce : Nonce} (hw : lock.Written)
    (h : Trace Lock.Step lock shown lock') (hr : .returned nonce .contended ∈ shown) : lock'.Lost nonce := by
  obtain ⟨pre, mid, rfl⟩ := List.append_of_mem hr
  refine Trace.since Lock.Written (fun x _ lock => ∀ nonce, x = .returned nonce .contended → lock.Lost nonce)
    (fun _ _ _ hw hs => hs.written hw) ?_ ?_ hw h rfl nonce rfl
  · rintro lock before x after lock' hw ⟨op, -, hop⟩ nonce rfl
    have hreturned : .returned nonce .contended ∈ (lock.act op).1 := by rw [hop]; simp
    have hlost := hw.lost hreturned
    rwa [hop] at hlost
  · rintro lock x mid out lock' hw hsince ⟨op, -, hop⟩ nonce rfl
    have hlost := (hsince nonce rfl).step hw op
    rwa [hop] at hlost

/-! ## Single flight -/

/-- The invocation's `acquire` returned `Acquired`, and it has not cleared its nonce. -/
def Holds (nonce : Nonce) (shown : List Event) : Prop :=
  (∃ value, .returned nonce (.acquired value) ∈ shown) ∧ .cleared nonce ∉ shown

/-- `c` took the lock after `a`, and it or someone in between took it past the expiry then stored by `a`. -/
def Succeeded (a c : Nonce) (shown : List Event) : Prop :=
  ∃ pre args nowMs replaced mid args' nowMs' replaced' post,
    shown = pre ++ .took a args nowMs replaced :: mid ++ .took c args' nowMs' replaced' :: post ∧
      Outlived a (mid ++ [.took c args' nowMs' replaced'])

/-- The option's nonce field is this one. -/
def Lock.Stores (lock : Lock) (nonce : Nonce) : Prop :=
  ∃ value, LockValue.parse lock.stored = some value ∧ value.nonce = nonce.text

/-- What is true of everything shown and of where it led. -/
structure SingleFlight (shown : List Event) (lock : Lock) : Prop where
  /-- Of two holders, one took the lock after the other's stored expiry was passed. -/
  holders : ∀ a c, a ≠ c → Holds a shown → Holds c shown → Succeeded a c shown ∨ Succeeded c a shown
  /-- `Contended` leaves nothing stored. -/
  contended : ∀ nonce, .returned nonce .contended ∈ shown → ¬ lock.Stores nonce
  /-- A clear or rewrite whose nonce is not stored changes nothing. -/
  foreign : ∀ nonce, ¬ lock.Stores nonce → (lock.act (.clear nonce)).2.stored = lock.stored ∧
    ∀ args, (lock.act (.rewrite nonce args)).2.stored = lock.stored
  /-- What is stored can be cleared, and still can after it was rewritten. -/
  custody : ∀ nonce, lock.Stores nonce → (lock.act (.clear nonce)).2.stored = [] ∧
    ∀ args, (lock.act (.rewrite nonce args)).2.Stores nonce

theorem Lock.Sound.stores {lock : Lock} (h : lock.Sound) {nonce : Nonce} : lock.Stores nonce ↔ lock.Carries nonce := by
  constructor
  · rintro ⟨value, hparse, hn⟩
    exact h.parse hparse hn
  · rintro ⟨args, hstored⟩
    exact ⟨_, by rw [hstored, parse_encode], rfl⟩

theorem Holds.order {shown : List Event} {lock : Lock} {a c : Nonce} (ht : Taken shown lock) (hne : a ≠ c)
    (ha : Holds a shown) (hc : Holds c shown) (htrace : Trace Lock.Step .unlocked shown lock) :
    Succeeded a c shown ∨ Succeeded c a shown := by
  obtain ⟨⟨va, hva⟩, hnota⟩ := ha
  obtain ⟨⟨vc, hvc⟩, hnotc⟩ := hc
  obtain ⟨args, nowMs, replaced, hta⟩ := ht.acquired a va hva
  obtain ⟨args', nowMs', replaced', htc⟩ := ht.acquired c vc hvc
  have hdiff : Event.took a args nowMs replaced ≠ .took c args' nowMs' replaced' :=
    fun h => hne (Event.took.inj h).1
  rcases Trace.exists_order hta htc hdiff with ⟨pre, mid, post, hx⟩ | ⟨pre, mid, post, hx⟩
  · rcases takes_between written_unlocked htrace hx with hcleared | hout
    · exact absurd (by rw [hx]; simp [hcleared]) hnota
    · exact .inl ⟨pre, args, nowMs, replaced, mid, args', nowMs', replaced', post, hx, hout⟩
  · rcases takes_between written_unlocked htrace hx with hcleared | hout
    · exact absurd (by rw [hx]; simp [hcleared]) hnotc
    · exact .inr ⟨pre, args', nowMs', replaced', mid, args, nowMs, replaced, post, hx, hout⟩

/-- **The pane lock is single-flight**, in every interleaving of the invocations' reads and writes. -/
theorem single_flight (ops : List Op) :
    SingleFlight (Trace.play Lock.act .unlocked ops).1 (Trace.play Lock.act .unlocked ops).2 := by
  have htrace := Trace.play_trace Lock.act (Trace.meets_true Lock.act .unlocked ops)
  generalize (Trace.play Lock.act .unlocked ops).1 = shown at htrace ⊢
  generalize (Trace.play Lock.act .unlocked ops).2 = lock at htrace ⊢
  have htaken : Taken shown lock := Trace.history Taken (fun _ _ _ _ h hs => h.step hs)
    ⟨written_unlocked, fun _ ⟨_, h⟩ => absurd h.symm (encode_ne_nil _), fun _ _ h => (by cases h)⟩ htrace
  have hsound := htaken.written.sound
  refine ⟨fun a c hne ha hc => ha.order htaken hne hc htrace, fun nonce hr hstores => ?_, fun nonce hnot => ?_,
    fun nonce hstores => ?_⟩
  · exact (contended_lost written_unlocked htrace hr).2 (hsound.stores.mp hstores)
  · have hmatch : ¬ nonceMatch nonce lock.stored = true := fun hm => hnot (hsound.stores.mpr (hsound.nonceMatch.mp hm))
    exact ⟨if_neg hmatch, fun args => if_neg hmatch⟩
  · have hmatch : nonceMatch nonce lock.stored = true := hsound.nonceMatch.mpr (hsound.stores.mp hstores)
    refine ⟨if_pos hmatch, fun args => ⟨args.value nonce, ?_, rfl⟩⟩
    have hstored : (lock.act (.rewrite nonce args)).2.stored = (args.value nonce).encode := if_pos hmatch
    rw [hstored, parse_encode]

/-! ## A third invocation in between -/

/-- A nonce of one repeated character. -/
def repeated (c : Char) (h : c.isDigit = true ∨ 'a' ≤ c ∧ c ≤ 'f') : Nonce :=
  ⟨List.replicate 32 c, List.length_replicate, fun _ hx => (List.mem_replicate.mp hx).2 ▸ h⟩

def first : Nonce := repeated 'a' (by decide)
def second : Nonce := repeated 'b' (by decide)
def third : Nonce := repeated 'c' (by decide)

/-- Expiry 100, by any process. -/
def until100 : Args := ⟨100, 7, ⟨"approve".toList, by decide⟩⟩

/-- The first takes the lock until 100; the second, at 101, takes it over and clears it; then the third,
whose clock says 50, finds it empty. -/
def interposed : List Op :=
  [.check second 101 until100 true true, .check first 0 until100 true true, .write first, .readBack first,
    .write second, .readBack second, .clear second, .check third 50 until100 true true, .write third, .readBack third]

theorem interposed_shows : (Trace.play Lock.act .unlocked interposed).1 =
    [.took first until100 0 [], .returned first (.acquired (until100.value first)),
      .took second until100 101 (until100.value first).encode, .returned second (.acquired (until100.value second)),
      .cleared second, .took third until100 50 [], .returned third (.acquired (until100.value third))] := by
  decide

/-- The later of two holders need not have passed anything the earlier stored. -/
theorem later_holder_within : ¬ ∀ ops a c pre args nowMs replaced mid args' nowMs' replaced' post,
    (Trace.play Lock.act .unlocked ops).1 =
      pre ++ .took a args nowMs replaced :: mid ++ .took c args' nowMs' replaced' :: post →
    Holds a (Trace.play Lock.act .unlocked ops).1 → Holds c (Trace.play Lock.act .unlocked ops).1 →
    args.expiryMs < nowMs' ∨ ∃ rewritten, .rewrote a rewritten ∈ mid ∧ rewritten.expiryMs < nowMs' := by
  intro h
  have hfirst : Holds first (Trace.play Lock.act .unlocked interposed).1 := by
    rw [interposed_shows]
    exact ⟨⟨until100.value first, by decide⟩, by decide⟩
  have hthird : Holds third (Trace.play Lock.act .unlocked interposed).1 := by
    rw [interposed_shows]
    exact ⟨⟨until100.value third, by decide⟩, by decide⟩
  let between : List Event :=
    [.returned first (.acquired (until100.value first)), .took second until100 101 (until100.value first).encode,
      .returned second (.acquired (until100.value second)), .cleared second]
  have hlate := h interposed first third [] until100 0 [] between until100 50 []
    [.returned third (.acquired (until100.value third))] interposed_shows hfirst hthird
  rcases hlate with hlt | ⟨rewritten, hmem, -⟩
  · exact absurd hlt (by decide)
  · simp [between] at hmem

end TmuxAgents.PaneLock
