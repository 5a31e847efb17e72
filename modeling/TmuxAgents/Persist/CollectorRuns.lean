/-
The lease over whole runs, with any number of collectors.

Every write of the option is an acquisition over what the writer's clock read as no live lease, a
renewal by the very collector the option names, or a release by it (`Lawful`). So a lease that was
written stands until the wall clock has come to its expiry (`Stands`), as long as that clock does not
go back: what one collector has taken over another had let run out.
-/
import TmuxAgents.Lib.Trace
import TmuxAgents.Persist.Collector
import TmuxAgents.Persist.TransactionRuns

namespace TmuxAgents.Lease

open Predicate

/-! ## Writes -/

/-- What a write found. -/
def Lawful (write : Write) : Prop :=
  match write.op with
  | .acquire _ _ submission =>
    noHooks write.found = true ∧ ∀ lease, CollectorLease.parse (readCollector write.found) = some lease →
      lease.liveAt submission.epochMs = false
  | .renew held _ submission =>
    noHooks write.found = true ∧ readCollector write.found = held.persisted.encode ∧
      held.persisted.liveAt submission.epochMs = true
  | .release token =>
    ∃ digits, digits ≠ [] ∧ digits.all Char.isDigit = true ∧ readCollector write.found = digits ++ ':' :: token.text

theorem Token.text_injective : Function.Injective Token.text := by
  rintro ⟨a, _⟩ ⟨b, _⟩ rfl
  rfl

/-- The released text is a number and the token. -/
theorem names_text {token : Token} {pane : Pane} (h : names token pane = true) :
    ∃ digits, digits ≠ [] ∧ digits.all Char.isDigit = true ∧ readCollector pane = digits ++ ':' :: token.text := by
  simp only [names, Bool.and_eq_true, decide_eq_true_eq] at h
  exact ⟨_, by simpa using h.1, List.all_takeWhile, h.2⟩

theorem names_encode {token : Token} {pane : Pane} (h : names token pane = true) {lease : CollectorLease}
    (hlease : readCollector pane = lease.encode) : lease.token = token := by
  simp only [names, Bool.and_eq_true, decide_eq_true_eq] at h
  obtain ⟨-, htext⟩ := h
  have hcolon : ':' ∉ (readCollector pane).takeWhile Char.isDigit := by
    intro hmem
    have hdigit := List.all_eq_true.mp List.all_takeWhile _ hmem
    cases hdigit
  rw [hlease] at htext hcolon
  exact Token.text_injective (Text.field_unique (Text.not_mem_decimal (by decide) _) hcolon htext).2

theorem ite_literal {b : Bool} {pane : Pane} (h : (if b = true then always else never) pane = true) : b = true := by
  cases b with
  | true => rfl
  | false => cases h

namespace Operation

theorem granted {op : Operation} {pane : Pane} (h : op.predicate pane = true) :
    (op.rejectsHooks = true → noHooks pane = true) ∧ op.condition pane = true := by
  unfold predicate at h
  split at h
  · rw [Predicate.and, Bool.and_eq_true] at h
    exact ⟨fun _ => h.1, h.2⟩
  · rename_i hrejects
    exact ⟨fun hr => absurd hr hrejects, h⟩

theorem predicate_of {op : Operation} {pane : Pane} (hquiet : noHooks pane = true) (h : op.condition pane = true) :
    op.predicate pane = true := by
  unfold predicate
  split
  · rw [Predicate.and, hquiet, h, Bool.and_self]
  · exact h

/-- A lease is acquired over what was read, and renewed over itself. -/
theorem acquire_granted {token : Token} {current : Text} {submission : LeaseTime} {pane : Pane}
    (h : (acquire token current submission).predicate pane = true) : readCollector pane = current ∧
      ∀ lease, CollectorLease.parse current = some lease → lease.liveAt submission.epochMs = false := by
  have hcondition := (granted h).2
  simp only [condition, Predicate.and, equal, Bool.and_eq_true, decide_eq_true_eq] at hcondition
  refine ⟨hcondition.2, fun lease hlease => ?_⟩
  have heligible := ite_literal hcondition.1
  rw [hlease] at heligible
  simpa using heligible

theorem renew_granted {held : Held} {current : Text} {submission : LeaseTime} {pane : Pane}
    (h : (renew held current submission).predicate pane = true) : readCollector pane = held.persisted.encode ∧
      held.persisted.liveAt submission.epochMs = true := by
  have hcondition := (granted h).2
  simp only [condition, Predicate.and, equal, Bool.and_eq_true, decide_eq_true_eq] at hcondition
  exact ⟨hcondition.2.1, ite_literal hcondition.1⟩

theorem lawful {op : Operation} {pane : Pane} (h : op.predicate pane = true) : Lawful { op, found := pane } := by
  have hhooks := (granted h).1
  cases op with
  | acquire token current submission =>
    obtain ⟨hcurrent, hexpired⟩ := acquire_granted h
    exact ⟨hhooks rfl, fun lease hlease => hexpired lease (hcurrent ▸ hlease)⟩
  | renew held current submission => exact ⟨hhooks rfl, renew_granted h⟩
  | release token => exact names_text h

theorem collector_run (op : Operation) (pane : Pane) :
    readCollector (op.run pane) = if op.predicate pane then op.value.encode else readCollector pane := by
  unfold run conditionalGroup
  split
  · exact OptionEdit.apply_set_self _ _ _
  · rfl

end Operation

/-! ## What is written, and what is held -/

def Written (shown : List Write) (lease : CollectorLease) : Prop := ∃ write ∈ shown, write.op.value = lease

/-- The option holds what it held at first, or a lease that was written. -/
def Known (first : Text) (shown : List Write) (text : Text) : Prop :=
  text = first ∨ ∃ lease, Written shown lease ∧ text = lease.encode

theorem Written.more {shown : List Write} {lease : CollectorLease} (h : Written shown lease) (out : List Write) :
    Written (shown ++ out) lease := by
  obtain ⟨write, hmem, hvalue⟩ := h
  exact ⟨write, List.mem_append_left out hmem, hvalue⟩

theorem Known.more {first text : Text} {shown : List Write} (h : Known first shown text) (out : List Write) :
    Known first (shown ++ out) text :=
  h.imp_right fun ⟨lease, hlease, htext⟩ => ⟨lease, hlease.more out, htext⟩

theorem Known.run {first : Text} {shown : List Write} {pane : Pane} (h : Known first shown (readCollector pane))
    (op : Operation) : Known first (shown ++ op.shows pane) (readCollector (op.run pane)) := by
  rw [op.collector_run, Operation.shows]
  split
  · exact .inr ⟨op.value, ⟨{ op, found := pane }, List.mem_append_right shown List.mem_cons_self, rfl⟩, rfl⟩
  · exact h.more []

/-- A collector works for its own token, and holds what it wrote. -/
def Stage.Sound (first : Text) (shown : List Write) (token : Token) : Stage → Prop
  | .idle => True
  | .held lease => lease.persisted.token = token ∧ Written shown lease.persisted
  | .due lease => lease.persisted.token = token
  | .observed lease _ => ∀ held, lease = some held → held.persisted.token = token
  | .submitted op => op.token = token
  | .executed op => op.token = token
  | .stored op text => op.token = token ∧ Known first shown text
  | .checked op text => op.token = token ∧ Known first shown text
  | .answered op outcome =>
    op.token = token ∧ ∀ lease, outcome = .won (some lease) → lease = op.value ∧ Written shown lease
  | .retiring => True
  | .gone => True

theorem Stage.Sound.more {first : Text} {shown : List Write} {token : Token} {stage : Stage}
    (h : stage.Sound first shown token) (out : List Write) : stage.Sound first (shown ++ out) token := by
  cases stage with
  | held lease => exact ⟨h.1, h.2.more out⟩
  | stored op text => exact ⟨h.1, h.2.more out⟩
  | checked op text => exact ⟨h.1, h.2.more out⟩
  | answered op outcome => exact ⟨h.1, fun lease hwon => ⟨(h.2 lease hwon).1, (h.2 lease hwon).2.more out⟩⟩
  | idle => exact h
  | due lease => exact h
  | observed lease current => exact h
  | submitted op => exact h
  | executed op => exact h
  | retiring => exact h
  | gone => exact h

namespace Operation

theorem operation_token {token : Token} {lease : Option Held} {current : Text} {submission : LeaseTime}
    (h : ∀ held, lease = some held → held.persisted.token = token) :
    (operation token lease current submission).token = token := by
  cases lease with
  | none => rfl
  | some held => exact h held rfl

theorem value_token (op : Operation) : op.value.token = op.token := by cases op <;> simp only [value, token]

/-- A win is of the lease the operation wrote. -/
theorem outcome_won {op : Operation} {stored : Text} {lease : CollectorLease}
    (h : op.outcome stored = .won (some lease)) : stored = op.value.encode ∧ lease = op.value := by
  unfold outcome at h
  split at h
  · rename_i hstored
    rw [hstored, LeaseOutcome.won.injEq] at h
    exact ⟨hstored, CollectorLease.parse_encoded h⟩
  · cases h

theorem confirmed_won {outcome : LeaseOutcome} {now : Nat} {lease : Option CollectorLease}
    (h : confirmedLiveLease outcome now = .won lease) : outcome = .won lease := by
  unfold confirmedLiveLease at h
  split at h
  · split at h
    · exact h
    · cases h
  · cases h

theorem answer_won {op : Operation} {stored : Text} {completedAt : Nat} {lease : CollectorLease}
    (h : op.answer stored completedAt = .won (some lease)) : stored = op.value.encode ∧ lease = op.value := by
  cases op with
  | acquire token current submission => exact outcome_won (confirmed_won h)
  | renew held current submission =>
    simp only [answer] at h
    split at h
    · exact outcome_won (confirmed_won h)
    · cases h
  | release token => exact outcome_won h

/-- What an operation comes to: a lease held since its submission, or none. -/
theorem conclude_cases (op : Operation) (outcome : LeaseOutcome) (completion : LeaseTime) :
    op.conclude outcome completion = .retiring ∨ op.conclude outcome completion = .gone ∨
      ∃ lease submission schedule, outcome = .won (some lease) ∧ op.value.expiresAt = submission.expiry ∧
        op.conclude outcome completion = .held { persisted := lease, schedule } ∧ schedule.last = submission ∧
        ((∃ token current, op = .acquire token current submission) ∨ ∃ held current, op = .renew held current submission) := by
  cases op with
  | acquire token current submission =>
    cases outcome with
    | lost lease => exact .inl rfl
    | won lease =>
      cases lease with
      | none => exact .inl rfl
      | some lease =>
        by_cases hrevoke : ((LeaseSchedule.committed submission).action completion).1 = .revoke
        · exact .inl (if_pos hrevoke)
        · refine .inr (.inr ⟨lease, submission, _, rfl, rfl, if_neg hrevoke, ?_, .inl ⟨token, current, rfl⟩⟩)
          exact LeaseSchedule.action_last _ _
  | renew held current submission =>
    cases outcome with
    | lost lease => exact .inl rfl
    | won lease =>
      cases lease with
      | none => exact .inl rfl
      | some lease =>
        by_cases hconfirm : (held.schedule.confirm submission completion).1 = true
        · refine .inr (.inr ⟨lease, submission, _, rfl, rfl, if_pos hconfirm, ?_, .inr ⟨held, current, rfl⟩⟩)
          rcases LeaseSchedule.confirm_spec held.schedule submission completion with ⟨h, -⟩ | ⟨h, -⟩
          · rw [h]
          · rw [h] at hconfirm
            cases hconfirm
        · exact .inl (if_neg hconfirm)
  | release token => exact .inr (.inl rfl)

end Operation

namespace World

/-- What holds whatever the clocks do. -/
structure Sound (shown : List Write) (world : World) : Prop where
  collector : Known world.first shown world.collector
  stages : ∀ token, (world.stage token).Sound world.first shown token
  /-- A token in use is none the option held at first. -/
  apart : ∀ token, world.stage token ≠ .idle → ∀ expiresAt, world.first ≠ CollectorLease.encode { token, expiresAt }

end World

theorem Move.gone {world : World} {token : Token} {stage : Stage} (h : Move world token .gone stage) : stage = .gone := by
  generalize hgone : Stage.gone = before at h
  cases h with
  | die begun => exact hgone
  | fail underway =>
    rw [← hgone] at underway
    cases underway
  | _ => cases hgone

/-- A collector that has begun goes on with a token in use, and a new one begins with a fresh token. -/
theorem Move.begun {world : World} {token : Token} {before after : Stage} (h : Move world token before after) :
    before ≠ .idle ∨ ∀ expiresAt, world.first ≠ CollectorLease.encode { token, expiresAt } := by
  cases h with
  | acquire fresh => exact .inr fresh
  | fail underway =>
    refine .inl fun hidle => ?_
    rw [hidle] at underway
    cases underway
  | die begun => exact .inl begun
  | _ => exact .inl (by simp)

theorem Move.sound {world : World} {token : Token} {before after : Stage} {shown : List Write}
    (hmove : Move world token before after) (hworld : Known world.first shown world.collector)
    (hapart : before ≠ .idle → ∀ expiresAt, world.first ≠ CollectorLease.encode { token, expiresAt })
    (h : before.Sound world.first shown token) : after.Sound world.first shown token := by
  cases hmove with
  | acquire fresh =>
    intro held hheld
    cases hheld
  | renew due => exact h.1
  | read =>
    rintro held ⟨rfl⟩
    exact h
  | submit => exact Operation.operation_token h
  | readBack => exact ⟨h, hworld⟩
  | check quiet => exact h
  | @answer op text =>
    refine ⟨h.1, fun lease hwon => ?_⟩
    obtain ⟨htext, rfl⟩ := Operation.answer_won hwon
    refine ⟨rfl, ?_⟩
    rcases h.2 with hfirst | ⟨lease, hwritten, hlease⟩
    · -- the token is none the option held at first
      refine absurd (hfirst.symm.trans htext) ?_
      have htoken := op.value_token.trans h.1
      rw [← htoken] at hapart
      exact hapart (by simp) op.value.expiresAt
    · exact CollectorLease.encode_injective (hlease.symm.trans htext) ▸ hwritten
  | @conclude op outcome =>
    rcases op.conclude_cases outcome world.clock with hstage | hstage | ⟨lease, submission, schedule, hwon, -, hstage, -, -⟩
    · rw [hstage]
      trivial
    · rw [hstage]
      trivial
    · rw [hstage]
      obtain ⟨rfl, hwritten⟩ := h.2 lease hwon
      exact ⟨op.value_token.trans h.1, hwritten⟩
  | lose => trivial
  | fail underway => trivial
  | release => exact rfl
  | die begun => trivial

variable {ticks : LeaseTime → LeaseTime → Prop}

namespace World

/-- Another stage for one token. -/
theorem forall_setStage {world : World} {token : Token} {stage : Stage} {P : Token → Stage → Prop}
    (h : ∀ t, P t (world.stage t)) (hstage : P token stage) : ∀ t, P t ((world.setStage token stage).stage t) := by
  intro t
  by_cases ht : t = token
  · subst ht
    simpa [setStage] using hstage
  · simpa [setStage, ht] using h t

theorem Sound.start (pane : Pane) (clock : LeaseTime) : (start pane clock).Sound [] where
  collector := .inl rfl
  stages _ := trivial
  apart _ h := absurd rfl h

theorem Sound.step {shown out : List Write} {world world' : World} (h : world.Sound shown)
    (hs : world.Step ticks out world') : world'.Sound (shown ++ out) := by
  cases hs with
  | @move token stage moved =>
    refine ⟨h.collector.more [], ?_, ?_⟩
    · refine @forall_setStage world token stage _ (fun t => (h.stages t).more []) ?_
      exact (moved.sound h.collector (h.apart token) (h.stages token)).more []
    · refine @forall_setStage world token stage
        (fun t s => s ≠ .idle → ∀ expiresAt, world.first ≠ CollectorLease.encode { token := t, expiresAt }) h.apart
        fun _ => ?_
      rcases moved.begun with hbegun | hfresh
      · exact h.apart token hbegun
      · exact hfresh
  | @execute token op submitted =>
    have hstage := h.stages token
    have hapart := h.apart token
    rw [submitted] at hstage hapart
    refine ⟨h.collector.run op, ?_, ?_⟩
    · exact @forall_setStage world token (.executed op) _ (fun t => (h.stages t).more _) hstage
    · exact @forall_setStage world token (.executed op)
        (fun t s => s ≠ .idle → ∀ expiresAt, world.first ≠ CollectorLease.encode { token := t, expiresAt }) h.apart
        fun _ => hapart (by simp)
  | @abandon token op submitted stage given =>
    have hapart := h.apart token
    rw [submitted] at hapart
    refine ⟨h.collector.more [], ?_, ?_⟩
    · refine @forall_setStage world token stage _ (fun t => (h.stages t).more []) ?_
      rcases given with rfl | ⟨-, rfl⟩ <;> trivial
    · exact @forall_setStage world token stage
        (fun t s => s ≠ .idle → ∀ expiresAt, world.first ≠ CollectorLease.encode { token := t, expiresAt }) h.apart
        fun _ => hapart (by simp)
  | @stray before after op lost => exact ⟨h.collector.run op, fun t => (h.stages t).more _, h.apart⟩
  | tick passed => exact ⟨h.collector.more [], fun t => (h.stages t).more [], h.apart⟩
  | @write pane kept =>
    refine ⟨?_, fun t => (h.stages t).more [], h.apart⟩
    show Known world.first (shown ++ []) (readCollector pane)
    rw [kept]
    exact h.collector.more []

end World

theorem World.Step.lawful {world world' : World} {out : List Write} (hs : world.Step ticks out world') :
    ∀ write ∈ out, Lawful write := by
  have hshows : ∀ op : Operation, ∀ write ∈ op.shows world.pane, Lawful write := by
    intro op write hwrite
    unfold Operation.shows at hwrite
    split at hwrite
    · rename_i hpredicate
      rw [List.mem_singleton.mp hwrite]
      exact Operation.lawful hpredicate
    · cases hwrite
  cases hs with
  | execute submitted => exact hshows _
  | stray lost => exact hshows _
  | _ => intro write hwrite; cases hwrite

/-! ## Under a wall clock that does not go back -/

/-- A lease in the text was there at first, or was submitted by then. -/
def Dated (first : Text) (at_ : LeaseTime) (text : Text) : Prop :=
  ∀ lease : CollectorLease, text = lease.encode → text = first ∨ lease.expiresAt ≤ at_.expiry

/-- The lease was submitted when its schedule says, and by then. -/
structure Held.Since (held : Held) (clock : LeaseTime) : Prop where
  anchored : held.persisted.expiresAt = held.schedule.last.expiry
  by_ : held.schedule.last.epochMs ≤ clock.epochMs

/-- None but its own collector has written over the lease, or its expiry has come. -/
def World.Stands (world : World) (lease : CollectorLease) : Prop :=
  (∃ expiresAt, lease.expiresAt ≤ expiresAt ∧
      world.collector = CollectorLease.encode { token := lease.token, expiresAt }) ∨
    lease.expiresAt ≤ world.clock.epochMs

theorem expiry_mono {a b : LeaseTime} (h : a.epochMs ≤ b.epochMs) : a.expiry ≤ b.expiry := by
  rw [LeaseSchedule.expiry_eq, LeaseSchedule.expiry_eq]
  omega

/-- A lease submitted by then, and not live then, has expired. -/
theorem expired_of_not_live {lease : CollectorLease} {at_ : LeaseTime} (hby : lease.expiresAt ≤ at_.expiry)
    (h : lease.liveAt at_.epochMs = false) : lease.expiresAt ≤ at_.epochMs := by
  have hfuture : saturatingAdd at_.epochMs leaseFutureMs = min (at_.epochMs + 17000) 18446744073709551615 := rfl
  rw [LeaseSchedule.expiry_eq] at hby
  rw [CollectorLease.liveAt, hfuture, Bool.and_eq_false_iff, decide_eq_false_iff_not, decide_eq_false_iff_not] at h
  omega

theorem Dated.later {first text : Text} {a b : LeaseTime} (h : Dated first a text) (hle : a.epochMs ≤ b.epochMs) :
    Dated first b text := fun lease hlease =>
  (h lease hlease).imp_right fun hby => Nat.le_trans hby (expiry_mono hle)

theorem Held.Since.later {held : Held} {a b : LeaseTime} (h : held.Since a) (hle : a.epochMs ≤ b.epochMs) :
    held.Since b := ⟨h.anchored, Nat.le_trans h.by_ hle⟩

/-- What an operation was submitted on. -/
def Operation.Timed (first : Text) (clock : LeaseTime) : Operation → Prop
  | .acquire _ current submission => submission.epochMs ≤ clock.epochMs ∧ Dated first submission current
  | .renew held _ submission => submission.epochMs ≤ clock.epochMs ∧ held.Since submission
  | .release _ => True

theorem Operation.Timed.later {first : Text} {a b : LeaseTime} {op : Operation} (h : op.Timed first a)
    (hle : a.epochMs ≤ b.epochMs) : op.Timed first b := by
  cases op with
  | acquire token current submission => exact ⟨Nat.le_trans h.1 hle, h.2⟩
  | renew held current submission => exact ⟨Nat.le_trans h.1 hle, h.2⟩
  | release token => trivial

theorem Operation.Timed.value {first : Text} {clock : LeaseTime} {op : Operation} (h : op.Timed first clock) :
    op.value.expiresAt ≤ clock.expiry := by
  cases op with
  | acquire token current submission => exact expiry_mono h.1
  | renew held current submission => exact expiry_mono h.1
  | release token => exact Nat.zero_le _

namespace World

/-- A lease stands through any operation but its own release. -/
theorem Stands.run {world : World} {lease : CollectorLease} {op : Operation} (h : world.Stands lease)
    (hfirst : ∀ expiresAt, world.first ≠ CollectorLease.encode { token := lease.token, expiresAt })
    (htimed : op.Timed world.first world.clock) (hrelease : op.rejectsHooks = false → op.token ≠ lease.token) :
    { world with pane := op.run world.pane }.Stands lease := by
  rcases h with ⟨expiresAt, hle, hcollector⟩ | hexpired
  · unfold Stands collector
    rw [op.collector_run]
    split
    · rename_i hpredicate
      cases op with
      | acquire token current submission =>
        obtain ⟨hcurrent, hlive⟩ := Operation.acquire_granted hpredicate
        have htext : current = CollectorLease.encode { token := lease.token, expiresAt } := hcurrent.symm.trans hcollector
        have hby : expiresAt ≤ submission.expiry := by
          rcases htimed.2 _ htext with hold | hby
          · exact absurd (hold.symm.trans htext) (hfirst expiresAt)
          · exact hby
        have hvalid : expiresAt < 2 ^ 64 := by
          rw [LeaseSchedule.expiry_eq] at hby
          omega
        have hparse := CollectorLease.exact.parse_encode { token := lease.token, expiresAt } hvalid
        rw [← htext] at hparse
        have hexpired := expired_of_not_live hby (hlive _ hparse)
        exact .inr (Nat.le_trans hle (Nat.le_trans hexpired htimed.1))
      | renew held current submission =>
        obtain ⟨hpersisted, -⟩ := Operation.renew_granted hpredicate
        have hsame := CollectorLease.encode_injective (hpersisted.symm.trans hcollector)
        refine .inl ⟨submission.expiry, ?_, ?_⟩
        · have hanchor := htimed.2.anchored
          rw [hsame] at hanchor
          exact Nat.le_trans hle (Nat.le_trans (Nat.le_of_eq hanchor) (expiry_mono htimed.2.by_))
        · simp only [Operation.value, hsame]
      | release token => exact absurd (names_encode hpredicate hcollector).symm (hrelease rfl)
    · exact .inl ⟨expiresAt, hle, hcollector⟩
  · exact .inr hexpired

end World

/-- What a collector knows of its own lease and of the option. -/
def Stage.Timed (world : World) : Stage → Prop
  | .idle => True
  | .held lease => lease.Since world.clock ∧ world.Stands lease.persisted
  | .due lease => lease.Since world.clock
  | .observed lease current => (∀ held, lease = some held → held.Since world.clock) ∧ Dated world.first world.clock current
  | .submitted op => op.Timed world.first world.clock
  | .executed op => op.Timed world.first world.clock
  | .stored op text => op.Timed world.first world.clock ∧ (text = op.value.encode → world.Stands op.value)
  | .checked op text => op.Timed world.first world.clock ∧ (text = op.value.encode → world.Stands op.value)
  | .answered op outcome =>
    op.Timed world.first world.clock ∧ ∀ lease, outcome = .won (some lease) → world.Stands lease
  | .retiring => True
  | .gone => True

theorem Stage.Timed.later {world world' : World} {shown : List Write} {token : Token} {stage : Stage}
    (hsound : stage.Sound world.first shown token) (hfirst : world'.first = world.first)
    (hclock : world.clock.epochMs ≤ world'.clock.epochMs)
    (hstands : ∀ lease, lease.token = token → world.Stands lease → world'.Stands lease) (h : stage.Timed world) :
    stage.Timed world' := by
  cases stage with
  | idle => trivial
  | held lease => exact ⟨h.1.later hclock, hstands _ hsound.1 h.2⟩
  | due lease => exact Held.Since.later h hclock
  | observed lease current =>
    refine ⟨fun held hheld => (h.1 held hheld).later hclock, ?_⟩
    rw [hfirst]
    exact h.2.later hclock
  | submitted op =>
    show op.Timed world'.first world'.clock
    rw [hfirst]
    exact Operation.Timed.later h hclock
  | executed op =>
    show op.Timed world'.first world'.clock
    rw [hfirst]
    exact Operation.Timed.later h hclock
  | stored op text =>
    refine ⟨?_, fun htext => hstands _ (op.value_token.trans hsound.1) (h.2 htext)⟩
    rw [hfirst]
    exact h.1.later hclock
  | checked op text =>
    refine ⟨?_, fun htext => hstands _ (op.value_token.trans hsound.1) (h.2 htext)⟩
    rw [hfirst]
    exact h.1.later hclock
  | answered op outcome =>
    refine ⟨?_, fun lease hwon => hstands _ ?_ (h.2 lease hwon)⟩
    · rw [hfirst]
      exact h.1.later hclock
    · rw [(hsound.2 lease hwon).1]
      exact op.value_token.trans hsound.1
  | retiring => trivial
  | gone => trivial

theorem Move.timed {world : World} {token : Token} {before after : Stage} {shown : List Write}
    (hmove : Move world token before after) (hcollector : Dated world.first world.clock world.collector)
    (hsound : before.Sound world.first shown token) (h : before.Timed world) : after.Timed world := by
  cases hmove with
  | acquire fresh => exact ⟨fun held hheld => (by cases hheld), hcollector⟩
  | renew due => exact h.1
  | read => exact ⟨fun held hheld => (by cases hheld; exact h), hcollector⟩
  | @submit lease current =>
    cases lease with
    | none => exact ⟨Nat.le_refl _, h.2⟩
    | some held => exact ⟨Nat.le_refl _, h.1 held rfl⟩
  | @readBack op => exact ⟨h, fun htext => .inl ⟨op.value.expiresAt, Nat.le_refl _, htext⟩⟩
  | check quiet => exact h
  | answer =>
    refine ⟨h.1, fun lease hwon => ?_⟩
    obtain ⟨htext, rfl⟩ := Operation.answer_won hwon
    exact h.2 htext
  | @conclude op outcome =>
    rcases op.conclude_cases outcome world.clock with hstage | hstage |
      ⟨lease, submission, schedule, hwon, hexpires, hstage, hlast, hop⟩
    · rw [hstage]
      trivial
    · rw [hstage]
      trivial
    · rw [hstage]
      refine ⟨⟨?_, ?_⟩, h.2 lease hwon⟩
      · rw [(hsound.2 lease hwon).1, hexpires, hlast]
      · rw [hlast]
        rcases hop with ⟨token, current, rfl⟩ | ⟨held, current, rfl⟩
        · exact h.1.1
        · exact h.1.1
  | lose => trivial
  | fail underway => trivial
  | release => trivial
  | die begun => trivial

namespace World

/-- What holds where the wall clock does not go back. -/
structure Timed (world : World) : Prop where
  collector : Dated world.first world.clock world.collector
  stages : ∀ token, (world.stage token).Timed world
  /-- A release whose reply was lost was the last its collector did. -/
  stray : ∀ op ∈ world.stray, op.Timed world.first world.clock ∧ (op.rejectsHooks = false → world.stage op.token = .gone)

theorem Timed.start (pane : Pane) (clock : LeaseTime) : (start pane clock).Timed where
  collector _ _ := .inl rfl
  stages _ := trivial
  stray _ h := absurd h List.not_mem_nil

theorem Dated.run {world : World} {op : Operation} (h : Dated world.first world.clock world.collector)
    (htimed : op.Timed world.first world.clock) : Dated world.first world.clock (readCollector (op.run world.pane)) := by
  rw [op.collector_run]
  split
  · intro lease hlease
    rw [← CollectorLease.encode_injective hlease]
    exact .inr htimed.value
  · exact h

theorem Timed.submitted {shown : List Write} {world : World} {token : Token} {op : Operation} (h : world.Timed)
    (hsound : world.Sound shown) (hop : world.stage token = .submitted op) :
    op.token = token ∧ op.Timed world.first world.clock := by
  have hstage := hsound.stages token
  have htimed := h.stages token
  rw [hop] at hstage htimed
  exact ⟨hstage, htimed⟩

/-- What a collector that is not gone does leaves what is said of the releases whose replies were lost. -/
theorem Timed.stray_setStage {world : World} {token : Token} (h : world.Timed) (hlives : world.stage token ≠ .gone)
    (stage : Stage) {op : Operation} (hop : op ∈ world.stray) :
    op.Timed world.first world.clock ∧
      (op.rejectsHooks = false → Function.update world.stage token stage op.token = .gone) := by
  refine ⟨(h.stray op hop).1, fun hr => ?_⟩
  have hgone := (h.stray op hop).2 hr
  have ht : op.token ≠ token := by
    rintro rfl
    exact hlives hgone
  rwa [Function.update_of_ne ht]

theorem Timed.step {shown out : List Write} {world world' : World} (hsound : world.Sound shown) (h : world.Timed)
    (hticks : ∀ a b, ticks a b → a.epochMs ≤ b.epochMs) (hs : world.Step ticks out world') : world'.Timed := by
  -- a collector's lease stands through what others do
  have hothers : ∀ (op : Operation) (token : Token), op.Timed world.first world.clock →
      (op.rejectsHooks = false → world.stage token ≠ .idle → op.token ≠ token) →
      (world.stage token).Timed { world with pane := op.run world.pane } := by
    intro op token htimed hrelease
    by_cases hidle : world.stage token = .idle
    · rw [hidle]
      trivial
    · refine (h.stages token).later (hsound.stages token) rfl (Nat.le_refl _) ?_
      rintro lease rfl hstands
      exact hstands.run (hsound.apart _ hidle) htimed fun hr => hrelease hr hidle
  cases hs with
  | @move token stage moved =>
    refine ⟨h.collector, ?_, ?_⟩
    · exact @forall_setStage world token stage (fun _ s => s.Timed world) h.stages
        (moved.timed h.collector (hsound.stages token) (h.stages token))
    · intro op hop
      refine ⟨(h.stray op hop).1, fun hr => ?_⟩
      have hgone := (h.stray op hop).2 hr
      by_cases ht : op.token = token
      · rw [← ht, hgone] at moved
        have hstage : stage = .gone := moved.gone
        simp only [setStage, ht, Function.update_self, hstage]
      · simpa only [setStage, Function.update_of_ne ht] using hgone
  | @execute token op submitted =>
    have hop := h.submitted hsound submitted
    have hlives : world.stage token ≠ .gone := by
      rw [submitted]
      exact Stage.noConfusion
    refine ⟨Dated.run h.collector hop.2, ?_, ?_⟩
    · intro t
      by_cases ht : t = token
      · subst ht
        simp only [setStage, Function.update_self]
        exact hop.2
      · simp only [setStage, Function.update_of_ne ht]
        exact hothers op t hop.2 fun _ _ htoken => ht (htoken.symm.trans hop.1)
    · exact fun other hother => h.stray_setStage hlives _ hother
  | @abandon token op submitted stage given =>
    have hop := h.submitted hsound submitted
    have hlives : world.stage token ≠ .gone := by
      rw [submitted]
      exact Stage.noConfusion
    refine ⟨h.collector, ?_, ?_⟩
    · refine @forall_setStage world token stage (fun _ s => s.Timed world) h.stages ?_
      rcases given with rfl | ⟨-, rfl⟩ <;> trivial
    · intro other hother
      rcases List.mem_cons.mp hother with rfl | hother
      · refine ⟨hop.2, fun hr => ?_⟩
        rcases given with rfl | ⟨hr', -⟩
        · simp only [setStage, hop.1, Function.update_self]
        · rw [hr] at hr'
          cases hr'
      · exact h.stray_setStage hlives _ hother
  | @stray before after op lost =>
    have hop := h.stray op (lost ▸ List.mem_append_right before List.mem_cons_self)
    refine ⟨Dated.run h.collector hop.1, fun t => ?_, fun other hother => h.stray other ?_⟩
    · by_cases ht : op.token = t ∧ op.rejectsHooks = false
      · rw [← ht.1, hop.2 ht.2]
        trivial
      · exact hothers op t hop.1 fun hr _ htoken => ht ⟨htoken, hr⟩
    · rw [lost]
      rcases List.mem_append.mp hother with hother | hother
      · exact List.mem_append_left _ hother
      · exact List.mem_append_right _ (List.mem_cons_of_mem _ hother)
  | @tick clock passed =>
    have hle := hticks _ _ passed
    refine ⟨h.collector.later hle, fun t => ?_, fun op hop => ⟨(h.stray op hop).1.later hle, (h.stray op hop).2⟩⟩
    exact (h.stages t).later (hsound.stages t) rfl hle fun lease _ hstands =>
      hstands.imp_right fun hexpired => Nat.le_trans hexpired hle
  | @write pane kept =>
    refine ⟨?_, fun t => ?_, h.stray⟩
    · show Dated world.first world.clock (readCollector pane)
      rw [kept]
      exact h.collector
    · refine (h.stages t).later (hsound.stages t) rfl (Nat.le_refl _) fun lease _ hstands => ?_
      refine hstands.imp_left fun ⟨expiresAt, hle, hcollector⟩ => ⟨expiresAt, hle, ?_⟩
      exact kept.trans hcollector

/-- The collector holds a lease, and its schedule does not revoke it. -/
def Live (world : World) (token : Token) (lease : Held) : Prop :=
  world.stage token = .held lease ∧ (lease.schedule.action world.clock).1 ≠ .revoke

/-- The expiry that the lease's readers were given has come. -/
def Overdue (world : World) (lease : Held) : Prop := lease.persisted.expiresAt ≤ world.clock.epochMs

theorem Live.agrees {world : World} {token : Token} {lease : Held} (h : world.Live token lease) :
    LeaseSchedule.Agrees lease.schedule world.clock := by
  rcases LeaseSchedule.action_spec lease.schedule world.clock with hrevoke | ⟨hagrees, -⟩
  · exact absurd (congrArg Prod.fst hrevoke) h.2
  · exact hagrees

end World

/-- **The lease is exclusive.** In every interleaving of any number of collectors, with replies lost, commands that
run late and daemons that die at any point: every write of the option renews or releases the lease it found there,
its own, or is over what its clock read as no live lease; and a lease is held only where it was written. Where the
wall clock does not go back, a collector that takes its lease for live is the one the option names, or its own expiry
has come; of two at one moment, it has come for one. That is for less than the clock slack, and only where the wall
clock has gained on the monotonic one since the lease's last confirmed write. -/
theorem lease_exclusive {pane : Pane} {clock : LeaseTime} {shown : List Write} {world : World}
    (h : Trace (World.Step ticks) (World.start pane clock) shown world) :
    (∀ write ∈ shown, Lawful write) ∧
    (∀ token lease, world.stage token = .held lease → lease.persisted.token = token ∧ Written shown lease.persisted) ∧
    ((∀ a b, ticks a b → a.epochMs ≤ b.epochMs) →
      (∀ token lease, world.Live token lease → world.Overdue lease ∨
        ∃ expiresAt, world.collector = CollectorLease.encode { token, expiresAt } ∧ world.clock.epochMs < expiresAt) ∧
      (∀ token lease other lease', world.Live token lease → world.Live other lease' → token ≠ other →
        world.Overdue lease ∨ world.Overdue lease') ∧
      ∀ token lease, world.Live token lease → world.Overdue lease →
        world.clock.epochMs < lease.persisted.expiresAt + clockSlackMs ∧
          (world.clock.epochMs < u64Max → world.clock.monotonicMs - lease.schedule.last.monotonicMs <
            world.clock.epochMs - lease.schedule.last.epochMs)) := by
  have hsound : world.Sound shown :=
    h.history (fun shown world => world.Sound shown) (fun _ _ _ _ hi hs => hi.step hs) (World.Sound.start pane clock)
  refine ⟨?_, fun token lease hheld => ?_, fun hticks => ?_⟩
  · exact h.all_shown (fun _ => True) Lawful (fun _ _ _ _ _ => trivial) (fun _ _ _ _ hs => hs.lawful) trivial
  · have hstage := hsound.stages token
    rw [hheld] at hstage
    exact hstage
  have htimed : world.Timed :=
    (h.history (fun shown world => world.Sound shown ∧ world.Timed)
      (fun _ _ _ _ hi hs => ⟨hi.1.step hs, hi.2.step hi.1 hticks hs⟩)
      ⟨World.Sound.start pane clock, World.Timed.start pane clock⟩).2
  have hstands : ∀ token lease, world.Live token lease → lease.Since world.clock ∧ world.Stands lease.persisted := by
    intro token lease hlive
    have hstage := htimed.stages token
    rw [hlive.1] at hstage
    exact hstage
  have hnamed : ∀ token lease, world.Live token lease → world.Overdue lease ∨
      ∃ expiresAt, world.collector = CollectorLease.encode { token, expiresAt } ∧ world.clock.epochMs < expiresAt := by
    intro token lease hlive
    by_cases hoverdue : world.Overdue lease
    · exact .inl hoverdue
    · rcases (hstands token lease hlive).2 with ⟨expiresAt, hle, hcollector⟩ | hexpired
      · have htoken := hsound.stages token
        rw [hlive.1] at htoken
        rw [htoken.1] at hcollector
        exact .inr ⟨expiresAt, hcollector, Nat.lt_of_lt_of_le (Nat.lt_of_not_le hoverdue) hle⟩
      · exact absurd hexpired hoverdue
  refine ⟨hnamed, fun token lease other lease' hlive hlive' hne => ?_, fun token lease hlive hoverdue => ?_⟩
  · rcases hnamed token lease hlive with hoverdue | ⟨expiresAt, hcollector, -⟩
    · exact .inl hoverdue
    · rcases hnamed other lease' hlive' with hoverdue | ⟨expiresAt', hcollector', -⟩
      · exact .inr hoverdue
      · have hsame := CollectorLease.encode_injective (hcollector.symm.trans hcollector')
        exact absurd (congrArg CollectorLease.token hsame) hne
  · have hagrees := hlive.agrees
    have hanchor := (hstands token lease hlive).1.anchored
    have hwall := hagrees.wall_lt
    have hdeadline := hagrees.deadline
    unfold World.Overdue at hoverdue
    refine ⟨hanchor ▸ hwall, fun hlast => ?_⟩
    rw [hanchor, LeaseSchedule.expiry_eq] at hoverdue
    unfold leaseDurationMs at hdeadline
    unfold u64Max at hlast
    omega

/-! ## An acquisition -/

@[simp] theorem World.stage_setStage (world : World) (token : Token) (stage : Stage) :
    (world.setStage token stage).stage token = stage := Function.update_self ..

theorem World.Step.goes {world : World} {token : Token} {before after : Stage} (hstage : world.stage token = before)
    (moved : Move world token before after) : World.Step ticks world [] (world.setStage token after) := by
  rw [← hstage] at moved
  exact .move moved

theorem liveAt_submission {at_ : LeaseTime} (h : at_.epochMs < u64Max) (token : Token) :
    CollectorLease.liveAt { token, expiresAt := at_.expiry } at_.epochMs = true := by
  have hfuture : saturatingAdd at_.epochMs leaseFutureMs = min (at_.epochMs + 17000) 18446744073709551615 := rfl
  unfold u64Max at h
  rw [CollectorLease.liveAt, hfuture, Bool.and_eq_true, decide_eq_true_eq, decide_eq_true_eq, LeaseSchedule.expiry_eq]
  dsimp only
  omega

theorem action_committed (at_ : LeaseTime) :
    (LeaseSchedule.committed at_).action at_ = (.wait, LeaseSchedule.committed at_) := by
  rw [LeaseSchedule.action, LeaseSchedule.committed, Checked.usub_of_le (Nat.le_refl _),
    Checked.usub_of_le (Nat.le_refl _), Nat.sub_self, Nat.sub_self]
  rfl

/-- The world as it was, but for one collector's stage and the pane. -/
structure World.But (world : World) (token : Token) (stage : Stage) (pane : Pane) (world' : World) : Prop where
  stage : world'.stage token = stage
  pane : world'.pane = pane
  first : world'.first = world.first
  clock : world'.clock = world.clock
  others : ∀ other, other ≠ token → world'.stage other = world.stage other

theorem World.But.goes {world world' : World} {token : Token} {before after : Stage} {pane : Pane}
    (h : world.But token before pane world') : world.But token after pane (world'.setStage token after) where
  stage := World.stage_setStage ..
  pane := h.pane
  first := h.first
  clock := h.clock
  others other hother := (Function.update_of_ne hother ..).trans (h.others other hother)

/-- A lease that was acquired on these clocks. -/
def Held.acquired (token : Token) (at_ : LeaseTime) : Held where
  persisted := { token, expiresAt := at_.expiry }
  schedule := LeaseSchedule.committed at_

/-- **A lease can be had**: a fresh collector that nobody disturbs acquires it, where the option holds no live lease and
the server has no hooks. -/
theorem acquires {world : World} {token : Token} (hidle : world.stage token = .idle)
    (hfresh : ∀ expiresAt, world.first ≠ CollectorLease.encode { token, expiresAt }) (hquiet : noHooks world.pane = true)
    (hexpired : ∀ lease, CollectorLease.parse world.collector = some lease → lease.liveAt world.clock.epochMs = false)
    (hclock : world.clock.epochMs < u64Max) :
    ∃ world' pane, Trace (World.Step ticks) world
        [{ op := .acquire token world.collector world.clock, found := world.pane }] world' ∧
      world.But token (.held (Held.acquired token world.clock)) pane world' ∧
      noHooks pane = true ∧ readCollector pane = CollectorLease.encode { token, expiresAt := world.clock.expiry } := by
  generalize hop : Operation.acquire token world.collector world.clock = op
  have hvalue : op.value = { token, expiresAt := world.clock.expiry } := by
    rw [← hop]
    rfl
  have hgranted : op.predicate world.pane = true := by
    refine Operation.predicate_of hquiet ?_
    have heligible : (!(CollectorLease.parse world.collector).any fun lease => lease.liveAt world.clock.epochMs) = true := by
      cases hparse : CollectorLease.parse world.collector with
      | none => rfl
      | some lease => simp [hexpired lease hparse]
    rw [← hop, Operation.condition, if_pos heligible]
    simp [Predicate.and, Predicate.always, Predicate.equal, World.collector, readCollector]
  have hstored : readCollector (op.run world.pane) = op.value.encode := by rw [op.collector_run, if_pos hgranted]
  have hquiet' : noHooks (op.run world.pane) = true := by
    unfold Operation.run conditionalGroup
    rw [if_pos hgranted]
    exact hquiet
  have hanswer : op.answer op.value.encode world.clock.epochMs = .won (some op.value) := by
    have hparse : CollectorLease.parse op.value.encode = some op.value := by
      refine CollectorLease.exact.parse_encode _ ?_
      rw [hvalue, CollectorLease.Valid, LeaseSchedule.expiry_eq]
      dsimp only
      omega
    have hlive : op.value.liveAt world.clock.epochMs = true := hvalue ▸ liveAt_submission hclock token
    have houtcome : op.outcome op.value.encode = .won (some op.value) := by rw [Operation.outcome, if_pos rfl, hparse]
    rw [← hop] at houtcome hlive ⊢
    simp only [Operation.answer, houtcome, confirmedLiveLease, Option.any_some, hlive, if_true]
  have hconclude : op.conclude (.won (some op.value)) world.clock = .held (Held.acquired token world.clock) := by
    have hwait := action_committed world.clock
    rw [Held.acquired, ← hvalue, ← hop, Operation.conclude, if_neg, hwait]
    rw [hwait]
    simp
  have hshows : op.shows world.pane = [{ op, found := world.pane }] := if_pos hgranted
  -- The option is read, and the operation sent and run.
  have hsubmitted : ∃ w, Trace (World.Step ticks) world [] w ∧ world.But token (.submitted op) world.pane w := by
    have hread : World.Step ticks world [] (world.setStage token (.observed none world.collector)) :=
      .goes hidle (.acquire hfresh)
    have hsubmit : Move (world.setStage token (.observed none world.collector)) token (.observed none world.collector)
        (.submitted op) := by
      rw [← hop]
      exact .submit
    have hbut : world.But token .idle world.pane world := ⟨hidle, rfl, rfl, rfl, fun _ _ => rfl⟩
    exact ⟨_, (Trace.start.next hread).next (.goes (World.stage_setStage ..) hsubmit),
      (hbut.goes : world.But token (.observed none world.collector) world.pane _).goes⟩
  obtain ⟨w, hrun, hbut⟩ := hsubmitted
  have hexecuted : ∃ w, Trace (World.Step ticks) world [{ op, found := world.pane }] w ∧
      world.But token (.executed op) (op.run world.pane) w := by
    have hexecute := hrun.next (.execute hbut.stage)
    rw [hbut.pane, hshows] at hexecute
    have hgoes : world.But token (.executed op) world.pane (w.setStage token (.executed op)) := hbut.goes
    exact ⟨_, hexecute, hgoes.stage, rfl, hgoes.first, hgoes.clock, hgoes.others⟩
  clear hrun hbut w
  -- It is read back, checked and answered.
  obtain ⟨w, hrun, hbut⟩ := hexecuted
  have hback : Move w token (.executed op) (.stored op op.value.encode) := by
    have hmove : Move w token (.executed op) (.stored op w.collector) := .readBack
    rwa [World.collector, hbut.pane, hstored] at hmove
  have hchecked : Move (w.setStage token (.stored op op.value.encode)) token (.stored op op.value.encode)
      (.checked op op.value.encode) := .check fun _ => (congrArg noHooks hbut.pane).trans hquiet'
  have hanswered : Move ((w.setStage token (.stored op op.value.encode)).setStage token (.checked op op.value.encode)) token
      (.checked op op.value.encode) (.answered op (.won (some op.value))) := by
    rw [← hanswer, ← hbut.clock]
    exact .answer
  have hended := (((hrun.next (.goes hbut.stage hback)).next (.goes (World.stage_setStage ..) hchecked)).next
    (.goes (World.stage_setStage ..) hanswered)).next (.goes (World.stage_setStage ..) .conclude)
  have hheld := (congrArg (op.conclude (.won (some op.value))) hbut.clock).trans hconclude
  refine ⟨_, _, hended, ?_, hquiet', hstored.trans (congrArg _ hvalue)⟩
  rw [← hheld]
  exact ((hbut.goes.goes).goes).goes

def firstToken : Token := ⟨List.replicate 32 '0', rfl⟩

def secondToken : Token := ⟨List.replicate 32 '1', rfl⟩

def firstInstant : LeaseTime := ⟨0, 1000, by decide⟩

/-- A second before the first lease's deadline on the monotonic clock, and at its expiry on the wall. -/
def secondInstant : LeaseTime := ⟨14000, 16000, by decide⟩

/-- A collector's lease runs out on the wall clock alone, and another takes over: for as long as the
first has not seen it, its lease is the one overdue. -/
theorem lease_exclusive_second :
    ∃ (world : World) (lease lease' : Held), world.Live firstToken lease ∧ world.Live secondToken lease' ∧
      world.Overdue lease ∧ ∃ expiresAt, world.collector = CollectorLease.encode { token := secondToken, expiresAt } ∧
        16000 < expiresAt := by
  have hfresh : ∀ token expiresAt, (World.start freshPane firstInstant).first ≠ CollectorLease.encode { token, expiresAt } :=
    fun token expiresAt h => absurd h.symm (List.append_ne_nil_of_right_ne_nil _ (List.cons_ne_nil _ _))
  obtain ⟨world₁, pane₁, hrun₁, hbut₁, hquiet₁, hcollector₁⟩ :=
    @acquires (fun a b => a.epochMs ≤ b.epochMs) (World.start freshPane firstInstant) firstToken rfl (hfresh _) rfl
      (fun lease hlease => by cases hlease) (by decide)
  have hpassed := hrun₁.next (@World.Step.tick _ world₁ secondInstant (by rw [hbut₁.clock]; decide))
  have hlease₁ : ∀ lease, CollectorLease.parse (readCollector world₁.pane) = some lease →
      lease.liveAt secondInstant.epochMs = false := by
    intro lease hlease
    rw [hbut₁.pane, hcollector₁] at hlease
    rw [CollectorLease.parse_encoded hlease]
    decide
  obtain ⟨world₂, pane₂, hrun₂, hbut₂, -, hcollector₂⟩ :=
    @acquires (fun a b => a.epochMs ≤ b.epochMs) { world₁ with clock := secondInstant } secondToken
      (hbut₁.others secondToken (by decide)) (fun expiresAt => hbut₁.first ▸ hfresh _ _)
      (hbut₁.pane ▸ hquiet₁) hlease₁ (show secondInstant.epochMs < u64Max by decide)
  obtain ⟨-, -, honward⟩ := lease_exclusive (hpassed.append hrun₂)
  have hclock₂ : world₂.clock = secondInstant := hbut₂.clock
  have hlive₁ : world₂.Live firstToken _ := ⟨(hbut₂.others firstToken (by decide)).trans hbut₁.stage, by rw [hclock₂]; decide⟩
  have hlive₂ : world₂.Live secondToken (Held.acquired secondToken secondInstant) := ⟨hbut₂.stage, by rw [hclock₂]; decide⟩
  have hnamed : world₂.collector = CollectorLease.encode { token := secondToken, expiresAt := secondInstant.expiry } :=
    (congrArg readCollector hbut₂.pane).trans hcollector₂
  refine ⟨world₂, _, _, hlive₁, hlive₂, ?_, _, hnamed, by decide⟩
  rcases (honward fun _ _ h => h).2.1 firstToken _ secondToken _ hlive₁ hlive₂ (by decide) with hoverdue | hoverdue
  · exact hoverdue
  · rw [World.Overdue, hclock₂] at hoverdue
    exact absurd hoverdue (by decide)

end TmuxAgents.Lease
