/-
The schedule of a collector's lease (`persistence.rs`): when it is renewed, and
when it is given up for good. Every call samples a monotonic and a wall clock,
and either may have jumped in either direction since the last one.

The schedule counts from one anchor, the submission of the last write that was
confirmed (`last_eq_submitted`). What a call does is read off `action_spec` and
`confirm_spec`.
-/
import TmuxAgents.Lib.Checked
import TmuxAgents.Lib.Run
import TmuxAgents.Persist.Metadata

namespace TmuxAgents

open Checked

def leaseRenewMs : Nat := 5000

def leaseDurationMs : Nat := 15000

def clockSlackMs : Nat := 2000

inductive LeaseAction
  | wait
  | renew (expiresAt : Nat)
  | revoke
deriving DecidableEq

/-- The monotonic and wall clocks sampled at one lease IO boundary. -/
structure LeaseTime where
  monotonicMs : Nat
  epochMs : Nat
  fits : monotonicMs ≤ u64Max ∧ epochMs ≤ u64Max
deriving DecidableEq

/-- The expiry that a write submitted at this time carries. -/
def LeaseTime.expiry (t : LeaseTime) : Nat := saturatingAdd t.epochMs leaseDurationMs

/-- `u64::abs_diff`. -/
def absDiff (a b : Nat) : Nat := (a - b) + (b - a)

/-- Either clock went back, or they drifted apart. -/
def discontinuous (elapsed wall : Option Nat) : Bool :=
  elapsed.isNone || wall.isNone || decide (clockSlackMs < absDiff (elapsed.getD 0) (wall.getD 0))

structure LeaseSchedule where
  last : LeaseTime
  revoked : Bool

namespace LeaseSchedule

def committed (at_ : LeaseTime) : LeaseSchedule := { last := at_, revoked := false }

def action (s : LeaseSchedule) (at_ : LeaseTime) : LeaseAction × LeaseSchedule :=
  let elapsed := usub at_.monotonicMs s.last.monotonicMs
  let wall := usub at_.epochMs s.last.epochMs
  if s.revoked || discontinuous elapsed wall || decide (leaseDurationMs ≤ elapsed.getD 0) then
    (.revoke, { s with revoked := true })
  else if elapsed.getD 0 < leaseRenewMs then (.wait, s)
  else (.renew at_.expiry, s)

/-- Continuity is checked at completion, and the original deadline anchor is kept. -/
def confirm (s : LeaseSchedule) (submission completion : LeaseTime) : Bool × LeaseSchedule :=
  let elapsed := usub completion.monotonicMs submission.monotonicMs
  let wall := usub completion.epochMs submission.epochMs
  if discontinuous elapsed wall then (false, { s with revoked := true })
  else
    match s.action completion with
    | (.revoke, s) => (false, s)
    | (_, s) =>
      match s.action submission with
      | (.renew _, s) => (true, { s with last := submission })
      | (_, s) => (false, s)

end LeaseSchedule

/-! ## Runs -/

inductive LeaseCall
  | action (at_ : LeaseTime)
  | confirm (submission completion : LeaseTime)

/-- A call, with what it answered. -/
inductive LeaseEvent
  | acted (at_ : LeaseTime) (answer : LeaseAction)
  | confirmed (submission completion : LeaseTime) (answer : Bool)

/-- The call was turned down. -/
def LeaseEvent.refused : LeaseEvent → Prop
  | .acted _ answer => answer = .revoke
  | .confirmed _ _ answer => answer = false

/-- The submission of the last write that was confirmed. -/
def lastSubmission (first : LeaseTime) (events : List LeaseEvent) : LeaseTime :=
  events.foldl
    (fun last event => match event with
      | .confirmed submission _ true => submission
      | _ => last) first

namespace LeaseSchedule

def call (s : LeaseSchedule) : LeaseCall → LeaseEvent × LeaseSchedule
  | .action at_ =>
    let (answer, s) := s.action at_
    (.acted at_ answer, s)
  | .confirm submission completion =>
    let (answer, s) := s.confirm submission completion
    (.confirmed submission completion answer, s)

def step (s : LeaseSchedule) (call : LeaseCall) : LeaseSchedule := (s.call call).2

def run (s : LeaseSchedule) (calls : List LeaseCall) : LeaseSchedule := Run.run step s calls

def events (s : LeaseSchedule) (calls : List LeaseCall) : List LeaseEvent :=
  Run.firings step (fun s call => some (s.call call).1) s calls

/-! ## What a call does -/

/-- The clocks agree with the anchor: neither is before it, and they are as far from it as
each other, up to the slack. -/
structure Agrees (s : LeaseSchedule) (at_ : LeaseTime) : Prop where
  live : s.revoked = false
  monotonic : s.last.monotonicMs ≤ at_.monotonicMs
  wall : s.last.epochMs ≤ at_.epochMs
  deadline : at_.monotonicMs < s.last.monotonicMs + leaseDurationMs
  drift : at_.epochMs - s.last.epochMs ≤ at_.monotonicMs - s.last.monotonicMs + clockSlackMs

/-- A call of `action` revokes, or it leaves the schedule as it was. -/
theorem action_spec (s : LeaseSchedule) (at_ : LeaseTime) :
    s.action at_ = (.revoke, { s with revoked := true }) ∨
      Agrees s at_ ∧ (s.action at_ = (.wait, s) ∨ s.action at_ = (.renew at_.expiry, s)) := by
  by_cases hrefused : (s.revoked || discontinuous (usub at_.monotonicMs s.last.monotonicMs)
      (usub at_.epochMs s.last.epochMs) ||
      decide (leaseDurationMs ≤ (usub at_.monotonicMs s.last.monotonicMs).getD 0)) = true
  · left
    simp only [action, hrefused, if_true]
  · right
    have hanswer : s.action at_ = (.wait, s) ∨ s.action at_ = (.renew at_.expiry, s) := by
      simp only [action, hrefused]
      by_cases hearly : (usub at_.monotonicMs s.last.monotonicMs).getD 0 < leaseRenewMs
      · exact .inl (if_pos hearly)
      · exact .inr (if_neg hearly)
    refine ⟨?_, hanswer⟩
    simp only [discontinuous, Bool.or_eq_true, not_or, Bool.not_eq_true, decide_eq_true_eq, Nat.not_le, Nat.not_lt,
      Option.isNone_eq_false_iff, Option.isSome_iff_exists, usub_eq_some] at hrefused
    obtain ⟨⟨hlive, ⟨⟨elapsed, hmonotonic, rfl⟩, wall, hwall, rfl⟩, hdrift⟩, hdeadline⟩ := hrefused
    rw [usub_of_le hmonotonic, usub_of_le hwall, Option.getD_some, Option.getD_some, absDiff] at hdrift
    rw [usub_of_le hmonotonic, Option.getD_some] at hdeadline
    exact ⟨hlive, hmonotonic, hwall, by omega, by omega⟩

theorem action_last (s : LeaseSchedule) (at_ : LeaseTime) : (s.action at_).2.last = s.last := by
  rcases action_spec s at_ with h | ⟨-, h | h⟩ <;> rw [h]

theorem action_revoked {s : LeaseSchedule} (h : s.revoked = true) (at_ : LeaseTime) : s.action at_ = (.revoke, s) := by
  rcases action_spec s at_ with haction | ⟨hagrees, -⟩
  · rw [haction, ← h]
  · rw [hagrees.live] at h
    cases h

/-- A write is confirmed as a renewal due at its submission, which becomes the anchor;
anything else leaves the anchor. -/
theorem confirm_spec (s : LeaseSchedule) (submission completion : LeaseTime) :
    (s.confirm submission completion = (true, { s with last := submission }) ∧
        s.action submission = (.renew submission.expiry, s)) ∨
      (s.confirm submission completion).1 = false ∧ (s.confirm submission completion).2.last = s.last ∧
        (s.revoked = true → (s.confirm submission completion).2.revoked = true) := by
  simp only [confirm]
  split
  · exact .inr ⟨rfl, rfl, fun _ => rfl⟩
  · rcases action_spec s completion with hcompletion | ⟨-, hcompletion | hcompletion⟩
    · rw [hcompletion]
      exact .inr ⟨rfl, rfl, fun _ => rfl⟩
    all_goals
      rw [hcompletion]
      dsimp only
      rcases action_spec s submission with hsubmission | ⟨-, hsubmission | hsubmission⟩
      · rw [hsubmission]
        exact .inr ⟨rfl, rfl, fun _ => rfl⟩
      · rw [hsubmission]
        exact .inr ⟨rfl, rfl, id⟩
      · rw [hsubmission]
        exact .inl ⟨rfl, rfl⟩

/-- Once revoked, a call is refused and changes nothing but to revoke again. -/
theorem refused_of_revoked {s : LeaseSchedule} (h : s.revoked = true) (c : LeaseCall) :
    (s.call c).1.refused ∧ (s.step c).revoked = true := by
  cases c with
  | action at_ =>
    simp only [step, call, action_revoked h]
    exact ⟨rfl, h⟩
  | confirm submission completion =>
    rcases confirm_spec s submission completion with ⟨-, hrenewed⟩ | ⟨hfalse, -, hrevoked⟩
    · rw [action_revoked h] at hrenewed
      cases hrenewed
    · exact ⟨hfalse, hrevoked h⟩

/-- The anchor is the submission of the last write that was confirmed. -/
theorem last_step (s : LeaseSchedule) (c : LeaseCall) : (s.step c).last = lastSubmission s.last [(s.call c).1] := by
  cases c with
  | action at_ => exact action_last s at_
  | confirm submission completion =>
    rcases confirm_spec s submission completion with ⟨hconfirmed, -⟩ | ⟨hfalse, hlast, -⟩
    · simp only [step, call, hconfirmed]
      rfl
    · simp only [step, call, lastSubmission, List.foldl_cons, List.foldl_nil, hfalse, hlast]

theorem last_eq_submitted (s : LeaseSchedule) (calls : List LeaseCall) :
    (s.run calls).last = lastSubmission s.last (s.events calls) := by
  induction calls generalizing s with
  | nil => rfl
  | cons c calls ih =>
    rw [run, Run.run_cons, events, Run.firings_cons, Option.toList_some, List.singleton_append]
    have hrest := ih (s.step c)
    rw [last_step] at hrest
    exact hrest

theorem refused_run {s : LeaseSchedule} (h : s.revoked = true) (calls : List LeaseCall) :
    ∀ event ∈ s.events calls, event.refused := by
  induction calls generalizing s with
  | nil =>
    intro event hmem
    cases hmem
  | cons c calls ih =>
    obtain ⟨hrefused, hrevoked⟩ := refused_of_revoked h c
    intro event hmem
    rw [events, Run.firings_cons, Option.toList_some, List.singleton_append] at hmem
    rcases List.mem_cons.mp hmem with rfl | hmem
    · exact hrefused
    · exact ih hrevoked event hmem

/-! ## What an agreeing time is to the readers of the lease -/

/-- The expiry a reader sees is the anchor's, capped by the largest instant. -/
theorem expiry_eq (t : LeaseTime) : t.expiry = min (t.epochMs + 15000) 18446744073709551615 := rfl

theorem Agrees.window {s : LeaseSchedule} {at_ : LeaseTime} (h : Agrees s at_) :
    s.last.epochMs ≤ at_.epochMs ∧ at_.epochMs < s.last.epochMs + 17000 ∧ at_.epochMs ≤ 18446744073709551615 := by
  have hdeadline := h.deadline
  have hdrift := h.drift
  have hmonotonic := h.monotonic
  unfold leaseDurationMs at hdeadline
  unfold clockSlackMs at hdrift
  exact ⟨h.wall, by omega, at_.fits.2⟩

/-- A reader that is behind by the slack treats the lease as live. -/
theorem Agrees.liveAt {s : LeaseSchedule} {at_ : LeaseTime} (h : Agrees s at_) (token : Token) :
    CollectorLease.liveAt { token, expiresAt := s.last.expiry } (at_.epochMs - clockSlackMs) = true := by
  obtain ⟨hwall, hwindow, hfits⟩ := h.window
  have hfuture : saturatingAdd (at_.epochMs - 2000) leaseFutureMs =
    min (at_.epochMs - 2000 + 17000) 18446744073709551615 := rfl
  rw [CollectorLease.liveAt, Bool.and_eq_true, decide_eq_true_eq, decide_eq_true_eq, expiry_eq, clockSlackMs, hfuture]
  dsimp only
  omega

theorem Agrees.wall_lt {s : LeaseSchedule} {at_ : LeaseTime} (h : Agrees s at_) :
    at_.epochMs < s.last.expiry + clockSlackMs := by
  obtain ⟨hwall, hwindow, hfits⟩ := h.window
  rw [expiry_eq, clockSlackMs]
  omega

/-- **The schedule is safe** after any calls, whatever the clocks read. A call that revokes is
final: every later call is refused. A lease that is kept is younger than its duration on the
monotonic clock, and on the wall clock than the expiry its readers were given, up to the
slack: a reader behind by the slack treats it as live. Both count from the submission of the
last write that was confirmed, a renewal that was due then. -/
theorem lease_schedule_safe (first : LeaseTime) (calls : List LeaseCall) :
    let s := (committed first).run calls
    let anchor := lastSubmission first ((committed first).events calls)
    (∀ at_, (s.action at_).1 = .revoke ↔ (s.action at_).2.revoked = true) ∧
    (s.revoked = true → ∀ later, ∀ event ∈ s.events later, event.refused) ∧
    (∀ at_, (s.action at_).1 ≠ .revoke →
      at_.epochMs < anchor.expiry + clockSlackMs ∧ at_.monotonicMs < anchor.monotonicMs + leaseDurationMs ∧
        ∀ token, CollectorLease.liveAt { token, expiresAt := anchor.expiry } (at_.epochMs - clockSlackMs) = true) ∧
    ∀ submission completion, (s.confirm submission completion).1 = true →
      (s.action submission).1 = .renew submission.expiry ∧ (s.confirm submission completion).2.last = submission := by
  intro s anchor
  have hanchor : s.last = anchor := last_eq_submitted (committed first) calls
  refine ⟨fun at_ => ?_, refused_run, fun at_ hkept => ?_, fun submission completion hconfirmed => ?_⟩
  · rcases action_spec s at_ with h | ⟨hagrees, h | h⟩ <;> rw [h]
    · simp
    · simp [hagrees.live]
    · simp [hagrees.live]
  · rcases action_spec s at_ with h | ⟨hagrees, -⟩
    · rw [h] at hkept
      exact absurd rfl hkept
    · rw [← hanchor]
      exact ⟨hagrees.wall_lt, hagrees.deadline, hagrees.liveAt⟩
  · rcases confirm_spec s submission completion with ⟨h, hrenewed⟩ | ⟨hfalse, -⟩
    · rw [h, hrenewed]
      exact ⟨rfl, rfl⟩
    · rw [hfalse] at hconfirmed
      cases hconfirmed

end LeaseSchedule

end TmuxAgents
