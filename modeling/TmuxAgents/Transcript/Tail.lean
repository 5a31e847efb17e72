/-
The forward tail over a growing transcript.

What a poll delivers is exact, but it stamps the memo for the file it saw, also where its
budget cut the read short. Such a poll is followed by `Unchanged` until the next append, with
lines of the file undelivered. `tail_exact` says when a tail does what it is for: in the runs
where no poll has to leave an event behind, and in no others.
-/
import TmuxAgents.Lib.Run
import TmuxAgents.Transcript.Lines

namespace TmuxAgents.Transcript

open Lines

/-! ## Runs -/

/-- An append, which changes the file's size. -/
structure Growth where
  byte : UInt8
  more : Bytes
  mtime : Int
  mtimeNsec : Int

def File.grow (file : File) (growth : Growth) : File :=
  { file with
    bytes := file.bytes ++ growth.byte :: growth.more
    mtime := growth.mtime
    mtimeNsec := growth.mtimeNsec }

inductive TailStep
  | append (growth : Growth)
  /-- A poll; the file may grow between its stat and its read. -/
  | poll (late : Option Growth)
  /-- A poll whose stat or whose open fails. -/
  | failedPoll (statted : Bool)

/-- The reader, the file, and the events of the `Fresh` results so far. -/
structure Tailing (Kind : Type) where
  reader : Reader
  file : File
  delivered : List (Event Kind)

def Tail.events {Kind : Type} : Except Refusal (Tail Kind) → List (Event Kind)
  | .ok (.fresh events _ _) => events
  | _ => []

variable {Kind Session : Type} (adapters : Adapters Kind Session) (source : Source) (budget : Budget)

namespace Tailing

/-- The poll of a file, and what it answers. -/
def polled (s : Tailing Kind) (statted opened : Option File) : Reader × Except Refusal (Tail Kind) :=
  s.reader.tail adapters source statted opened budget

def step (s : Tailing Kind) : TailStep → Tailing Kind
  | .append growth => { s with file := s.file.grow growth }
  | .poll late =>
    let opened := late.elim s.file s.file.grow
    let (reader, result) := s.polled adapters source budget (some s.file) (some opened)
    { reader, file := opened, delivered := s.delivered ++ Tail.events result }
  | .failedPoll statted =>
    let (reader, result) := s.polled adapters source budget (if statted then some s.file else none) none
    { s with reader, delivered := s.delivered ++ Tail.events result }

/-- Where the next read starts. -/
def offset (s : Tailing Kind) : Nat := (s.reader.offsets s.file.id).getD 0

/-- What no poll has read yet. -/
def unread (s : Tailing Kind) : Bytes := s.file.bytes.drop s.offset

/-! ## What a tail is for -/

/-- Every newline-terminated line of the file is delivered. -/
def AllDelivered (s : Tailing Kind) : Prop :=
  s.delivered.map Event.unsized = lineEvents adapters source.store s.file.id s.file.bytes

/-- What is delivered is a prefix of the file's events; a poll answers `Unchanged` only where it is all of them; and if
the file stops growing, finitely many polls deliver all of them. -/
structure Good (s : Tailing Kind) : Prop where
  exact : s.delivered.map Event.unsized <+: lineEvents adapters source.store s.file.id s.file.bytes
  quiet : (s.polled adapters source budget (some s.file) (some s.file)).2 = .ok .unchanged →
    s.AllDelivered adapters source
  drains : ∃ n, (Run.run (step adapters source budget) s (List.replicate n (.poll none))).AllDelivered adapters source

/-- One read holds every whole line that is unread and maps to an event. -/
def Fits (s : Tailing Kind) : Prop :=
  ∀ before line after, Lines.splitInclusive newline s.unread = before ++ line :: after → newline ∈ line →
    bears adapters source.store line = true →
    before.flatten.length + line.length ≤ readEnd s.offset s.file.bytes.length budget.readBytes - s.offset

/-! ## One poll -/

/-- What every run keeps: what was delivered is what was read, and the memo is of a file that was there. -/
structure Inv (s : Tailing Kind) : Prop where
  offset_le : s.offset ≤ s.file.bytes.length
  whole : Whole newline (s.file.bytes.take s.offset)
  delivered : s.delivered.map Event.unsized =
    (mapRange adapters source.store s.file.id 0 (s.file.bytes.take s.offset) 0).1
  memo : ∀ memo, s.reader.memo source.path = some memo → memo.size ≤ s.file.bytes.length

variable {adapters source budget} {s : Tailing Kind}

theorem tail_failed {reader : Reader} {file : Option File} :
    (reader.tail adapters source none file budget).1 = reader ∧
      Tail.events (reader.tail adapters source none file budget).2 = [] := by
  unfold Reader.tail stat
  split
  · exact ⟨rfl, rfl⟩
  · split <;> rename_i h <;> split at h <;> cases h <;> exact ⟨rfl, rfl⟩

theorem tail_unopened {reader : Reader} {file : Option File} :
    (reader.tail adapters source file none budget).1 = reader ∧
      Tail.events (reader.tail adapters source file none budget).2 = [] := by
  unfold Reader.tail
  split
  · exact ⟨rfl, rfl⟩
  · split
    · exact ⟨rfl, rfl⟩
    · split <;> exact ⟨rfl, rfl⟩

theorem polled_quiet (hstore : source.store.isReadable = true) {opened : Option File}
    (hmemo : s.reader.memo source.path = some s.file.memo) :
    s.polled adapters source budget (some s.file) opened = (s.reader, .ok .unchanged) := by
  have hfile : source.store.isFileStore = true := by
    revert hstore
    cases source.store <;> decide
  simp only [polled, Reader.tail, stat, hfile, hstore, hmemo, Bool.not_true, Bool.false_eq_true, if_false, if_true]

/-- The whole lines that one read delivers. -/
def count (budget : Budget) (s : Tailing Kind) : Nat :=
  completeLen newline (s.unread.take (readEnd s.offset s.file.bytes.length budget.readBytes - s.offset))

theorem count_le (budget : Budget) (s : Tailing Kind) : s.count budget ≤ s.unread.length := by
  have h := completeLen_le newline
    (s.unread.take (readEnd s.offset s.file.bytes.length budget.readBytes - s.offset))
  rw [List.length_take] at h
  unfold count
  omega

/-- What a read maps. -/
def taken (adapters : Adapters Kind Session) (source : Source) (budget : Budget) (s : Tailing Kind) :
    List (Event Kind) × Nat :=
  mapRange adapters source.store s.file.id s.file.bytes.length (s.unread.take (s.count budget)) s.offset

/-- The reader after a read: the memo is stamped, whatever the budget left unread. -/
def readerAfter (adapters : Adapters Kind Session) (source : Source) (budget : Budget) (s : Tailing Kind) : Reader where
  memo := Function.update s.reader.memo source.path (some s.file.memo)
  offsets := Function.update s.reader.offsets s.file.id (some (s.offset + s.count budget))
  unknown := s.reader.unknown + (taken adapters source budget s).2

/-- A poll that reads delivers the whole lines of what it read. -/
theorem polled_read (hstore : source.store.isReadable = true) (hoff : s.offset ≤ s.file.bytes.length) {late : Bytes}
    {opened : File} (hopened : opened.bytes = s.file.bytes ++ late)
    (hmemo : s.reader.memo source.path ≠ some s.file.memo) :
    s.polled adapters source budget (some s.file) (some opened) =
      (readerAfter adapters source budget s,
        .ok (.fresh (taken adapters source budget s).1 (taken adapters source budget s).2 false)) := by
  have hfile : source.store.isFileStore = true := by
    revert hstore
    cases source.store <;> decide
  have hfresh : decide (s.file.memo.size < (s.reader.offsets s.file.memo.id).getD 0) = false :=
    decide_eq_false (Nat.not_lt.mpr hoff)
  have hend : readEnd s.offset s.file.bytes.length budget.readBytes - s.offset ≤ s.unread.length := by
    rw [unread, List.length_drop]
    have hmin : readEnd s.offset s.file.bytes.length budget.readBytes ≤ s.file.bytes.length := Nat.min_le_left _ _
    omega
  have hbuf : readRange opened.bytes s.offset (readEnd s.offset s.file.bytes.length budget.readBytes) =
      s.unread.take (readEnd s.offset s.file.bytes.length budget.readBytes - s.offset) := by
    rw [readRange, hopened, List.drop_append_of_le_length hoff]
    exact List.take_append_of_le_length hend
  have hcount : (s.unread.take (readEnd s.offset s.file.bytes.length budget.readBytes - s.offset)).take (s.count budget) =
      s.unread.take (s.count budget) := by
    have hle := completeLen_le newline
      (s.unread.take (readEnd s.offset s.file.bytes.length budget.readBytes - s.offset))
    rw [List.length_take] at hle
    rw [List.take_take, Nat.min_eq_left]
    unfold count
    omega
  have hoffset : (s.reader.offsets s.file.memo.id).getD 0 = s.offset := rfl
  simp only [polled, Reader.tail, stat, hfile, hstore, if_neg hmemo, hfresh, Bool.not_true, Bool.false_eq_true, if_false]
  rw [hoffset, show s.file.memo.size = s.file.bytes.length from rfl, hbuf]
  rw [show completeLen newline (s.unread.take (readEnd s.offset s.file.bytes.length budget.readBytes - s.offset)) =
    s.count budget from rfl, hcount]
  rfl

/-! ## What every run keeps -/

theorem whole_read (budget : Budget) (s : Tailing Kind) : Whole newline (s.unread.take (s.count budget)) := by
  have hcut := (complete_split newline
    (s.unread.take (readEnd s.offset s.file.bytes.length budget.readBytes - s.offset))).1
  have hle := completeLen_le newline
    (s.unread.take (readEnd s.offset s.file.bytes.length budget.readBytes - s.offset))
  rw [List.length_take] at hle
  rwa [List.take_take, Nat.min_eq_left (by omega)] at hcut

theorem whole_unread (budget : Budget) (h : Inv adapters source s) :
    Whole newline (s.file.bytes.take (s.offset + s.count budget)) := by
  rw [List.take_add]
  exact h.whole.append (whole_read budget s)

theorem Inv.grow (h : Inv adapters source s) (growth : Growth) :
    Inv adapters source { s with file := s.file.grow growth } := by
  have hoff : ({ s with file := s.file.grow growth } : Tailing Kind).offset = s.offset := rfl
  have hbytes : (s.file.grow growth).bytes = s.file.bytes ++ growth.byte :: growth.more := rfl
  have htake : (s.file.grow growth).bytes.take s.offset = s.file.bytes.take s.offset := by
    rw [hbytes, List.take_append_of_le_length h.offset_le]
  have hlen : s.file.bytes.length ≤ (s.file.grow growth).bytes.length := by
    rw [hbytes, List.length_append]
    omega
  refine ⟨?_, ?_, ?_, ?_⟩
  · rw [hoff]
    exact Nat.le_trans h.offset_le hlen
  · rw [hoff]
    simp only [htake]
    exact h.whole
  · rw [hoff]
    simp only [htake]
    exact h.delivered
  · intro memo hmemo
    exact Nat.le_trans (h.memo memo hmemo) hlen

/-- What a reading poll leaves, over a file that has not grown since. -/
def afterRead (adapters : Adapters Kind Session) (source : Source) (budget : Budget) (s : Tailing Kind) : Tailing Kind :=
  { s with
    reader := readerAfter adapters source budget s
    delivered := s.delivered ++ (taken adapters source budget s).1 }

theorem afterRead_offset : (afterRead adapters source budget s).offset = s.offset + s.count budget := by
  simp only [afterRead, readerAfter, offset, Function.update_self, Option.getD_some]

theorem afterRead_memo : (afterRead adapters source budget s).reader.memo source.path = some s.file.memo :=
  Function.update_self ..

theorem Inv.afterRead (h : Inv adapters source s) : Inv adapters source (afterRead adapters source budget s) := by
  refine ⟨?_, ?_, ?_, ?_⟩
  · rw [afterRead_offset]
    have hle := count_le budget s
    have hoff := h.offset_le
    rw [unread, List.length_drop] at hle
    show s.offset + s.count budget ≤ s.file.bytes.length
    omega
  · rw [afterRead_offset]
    exact whole_unread budget h
  · rw [afterRead_offset]
    show (s.delivered ++ _).map Event.unsized = (mapRange adapters source.store s.file.id 0
      (s.file.bytes.take (s.offset + s.count budget)) 0).1
    rw [List.map_append, h.delivered, taken, mapRange_unsized, List.take_add, mapRange_append _ _ _ _ _ h.whole,
      Nat.zero_add, List.length_take_of_le h.offset_le]
    rfl
  · intro memo hmemo
    rw [afterRead_memo, Option.some.injEq] at hmemo
    subst hmemo
    exact Nat.le_refl _

/-- A poll is quiet, or reads. -/
theorem step_poll (hstore : source.store.isReadable = true) (h : Inv adapters source s) :
    (s.reader.memo source.path = some s.file.memo ∧ step adapters source budget s (.poll none) = s) ∨
      (s.reader.memo source.path ≠ some s.file.memo ∧
        step adapters source budget s (.poll none) = afterRead adapters source budget s) := by
  by_cases hmemo : s.reader.memo source.path = some s.file.memo
  · refine .inl ⟨hmemo, ?_⟩
    simp only [step, Option.elim_none, polled_quiet hstore hmemo, Tail.events, List.append_nil]
  · have hpolled := @polled_read _ _ adapters source budget s hstore h.offset_le _ _
      (List.append_nil s.file.bytes).symm hmemo
    refine .inr ⟨hmemo, ?_⟩
    simp only [step, Option.elim_none, hpolled, Tail.events, Tailing.afterRead]

/-- Growth between the stat and the read is growth after the poll. -/
theorem step_late (hstore : source.store.isReadable = true) (h : Inv adapters source s) (growth : Growth) :
    step adapters source budget s (.poll (some growth)) =
      { step adapters source budget s (.poll none) with file := s.file.grow growth } := by
  by_cases hmemo : s.reader.memo source.path = some s.file.memo
  · simp only [step, Option.elim_none, Option.elim_some, polled_quiet hstore hmemo]
  · have hlate := @polled_read _ _ adapters source budget s hstore h.offset_le _ (s.file.grow growth)
      rfl hmemo
    have hpolled := @polled_read _ _ adapters source budget s hstore h.offset_le _ _
      (List.append_nil s.file.bytes).symm hmemo
    simp only [step, Option.elim_none, Option.elim_some, hpolled, hlate]

theorem Inv.poll (hstore : source.store.isReadable = true) (h : Inv adapters source s) :
    Inv adapters source (step adapters source budget s (.poll none)) := by
  rcases @step_poll _ _ adapters source budget s hstore h with ⟨-, heq⟩ | ⟨-, heq⟩
  · rw [heq]
    exact h
  · rw [heq]
    exact h.afterRead

theorem step_failed (statted : Bool) : step adapters source budget s (.failedPoll statted) = s := by
  cases statted with
  | true =>
    have hfail := @tail_unopened _ _ adapters source budget s.reader (some s.file)
    simp only [step, polled, if_true, hfail.1, hfail.2, List.append_nil]
  | false =>
    have hfail := @tail_failed _ _ adapters source budget s.reader none
    simp only [step, polled, Bool.false_eq_true, if_false, hfail.1, hfail.2, List.append_nil]

theorem Inv.step (hstore : source.store.isReadable = true) (h : Inv adapters source s) (op : TailStep) :
    Inv adapters source (step adapters source budget s op) := by
  cases op with
  | append growth => exact h.grow growth
  | poll late =>
    cases late with
    | none => exact h.poll hstore
    | some growth =>
      rw [step_late hstore h]
      exact (h.poll hstore).grow growth
  | failedPoll statted =>
    rw [step_failed]
    exact h

/-! ## What is left to deliver -/

/-- The whole lines that no poll has read yet. -/
def left (s : Tailing Kind) : Bytes := s.unread.take (completeLen newline s.unread)

/-- The file's events are what was delivered and those of the lines that are left. -/
theorem lineEvents_eq (h : Inv adapters source s) :
    lineEvents adapters source.store s.file.id s.file.bytes =
      s.delivered.map Event.unsized ++ (mapRange adapters source.store s.file.id 0 s.left s.offset).1 := by
  have hlen : completeLen newline s.file.bytes = s.offset + completeLen newline s.unread := by
    have htotal := completeLen_append_whole h.whole (b := s.unread)
    rw [unread, List.take_append_drop, List.length_take_of_le h.offset_le] at htotal
    exact htotal
  rw [lineEvents, hlen, List.take_add, mapRange_append _ _ _ _ _ h.whole, h.delivered, Nat.zero_add,
    List.length_take_of_le h.offset_le]
  rfl

theorem allDelivered_iff (h : Inv adapters source s) :
    s.AllDelivered adapters source ↔ ∀ line ∈ Lines.splitInclusive newline s.left, ¬ bears adapters source.store line = true := by
  rw [AllDelivered, lineEvents_eq h, List.self_eq_append_right, mapRange_eq_nil]
  simp only [Bool.not_eq_true]

/-- What a read takes is the front of what is left. -/
theorem completeLen_unread (budget : Budget) (s : Tailing Kind) :
    completeLen newline s.unread = s.count budget + completeLen newline (s.unread.drop (s.count budget)) := by
  have htotal := completeLen_append_whole (whole_read budget s) (b := s.unread.drop (s.count budget))
  rwa [List.take_append_drop, List.length_take_of_le (count_le budget s)] at htotal

theorem left_split (budget : Budget) (s : Tailing Kind) :
    s.left = s.unread.take (s.count budget) ++ s.left.drop (s.count budget) := by
  have hle : s.count budget ≤ completeLen newline s.unread := by
    have htotal := completeLen_unread budget s
    omega
  have htake : s.left.take (s.count budget) = s.unread.take (s.count budget) := by
    rw [left, List.take_take, Nat.min_eq_left hle]
  rw [← htake, List.take_append_drop]

theorem left_afterRead : (afterRead adapters source budget s).left = s.left.drop (s.count budget) := by
  have hunread : (afterRead adapters source budget s).unread = s.unread.drop (s.count budget) := by
    rw [unread, afterRead_offset, unread, List.drop_drop]
    rfl
  rw [left, hunread, left, List.drop_take, completeLen_unread budget s, Nat.add_sub_cancel_left]

theorem fits_iff : s.Fits adapters source budget ↔
    ∀ line ∈ Lines.splitInclusive newline (s.left.drop (s.count budget)), ¬ bears adapters source.store line = true :=
  lines_past_iff

/-- A read delivers everything exactly where it had to leave no event behind. -/
theorem afterRead_iff (h : Inv adapters source s) :
    (afterRead adapters source budget s).AllDelivered adapters source ↔ s.Fits adapters source budget := by
  rw [allDelivered_iff h.afterRead, left_afterRead, fits_iff]

theorem fits_of_allDelivered (h : Inv adapters source s) (hall : s.AllDelivered adapters source) :
    s.Fits adapters source budget := by
  rw [fits_iff]
  intro line hline
  refine (allDelivered_iff h).mp hall line ?_
  rw [left_split budget s, splitInclusive_append (whole_read budget s)]
  exact List.mem_append_right _ hline

/-! ## Whole runs -/

/-- The memo is of the file as it is only where everything is delivered. -/
def Settled (adapters : Adapters Kind Session) (source : Source) (s : Tailing Kind) : Prop :=
  s.reader.memo source.path = some s.file.memo → s.AllDelivered adapters source

/-- A file that grew is not the memo's. -/
theorem Inv.memo_ne (h : Inv adapters source s) (growth : Growth) :
    s.reader.memo source.path ≠ some (s.file.grow growth).memo := by
  intro hmemo
  have hle := h.memo _ hmemo
  have hsize : (s.file.grow growth).memo.size = s.file.bytes.length + (growth.more.length + 1) := by
    simp only [File.memo, File.grow, List.length_append, List.length_cons]
  omega

theorem Settled.step (hstore : source.store.isReadable = true) (h : Inv adapters source s)
    (hs : s.Settled adapters source) (hfits : s.Fits adapters source budget) (op : TailStep) :
    (Tailing.step adapters source budget s op).Settled adapters source := by
  have hpoll : (Tailing.step adapters source budget s (.poll none)).Settled adapters source := by
    rcases @step_poll _ _ adapters source budget s hstore h with ⟨-, heq⟩ | ⟨-, heq⟩
    · rw [heq]
      exact hs
    · rw [heq]
      exact fun _ => (afterRead_iff h).mpr hfits
  cases op with
  | append growth => exact fun hmemo => absurd hmemo (h.memo_ne growth)
  | poll late =>
    cases late with
    | none => exact hpoll
    | some growth =>
      rw [step_late hstore h]
      exact fun hmemo => absurd hmemo ((h.poll hstore).memo_ne growth)
  | failedPoll statted =>
    rw [step_failed]
    exact hs

/-- Polls of a file that is not growing change nothing once one has read it. -/
theorem run_polls (hstore : source.store.isReadable = true) (h : Inv adapters source s)
    (hmemo : s.reader.memo source.path = some s.file.memo) (n : Nat) :
    Run.run (step adapters source budget) s (List.replicate n (.poll none)) = s := by
  induction n with
  | zero => rfl
  | succ n ih =>
    rcases @step_poll _ _ adapters source budget s hstore h with ⟨-, heq⟩ | ⟨hne, -⟩
    · rw [List.replicate_succ, Run.run_cons, heq, ih]
    · exact absurd hmemo hne

theorem good_of_fits (hstore : source.store.isReadable = true) (h : Inv adapters source s)
    (hs : s.Settled adapters source) (hfits : s.Fits adapters source budget) : s.Good adapters source budget := by
  refine ⟨?_, ?_, ?_⟩
  · rw [lineEvents_eq h]
    exact List.prefix_append _ _
  · intro hquiet
    by_cases hmemo : s.reader.memo source.path = some s.file.memo
    · exact hs hmemo
    · rw [polled_read hstore h.offset_le (List.append_nil s.file.bytes).symm hmemo] at hquiet
      cases hquiet
  · rcases @step_poll _ _ adapters source budget s hstore h with ⟨hmemo, -⟩ | ⟨-, heq⟩
    · exact ⟨0, hs hmemo⟩
    · refine ⟨1, ?_⟩
      rw [List.replicate_one, Run.run_cons, Run.run_nil, heq]
      exact (afterRead_iff h).mpr hfits

theorem fits_of_good (hstore : source.store.isReadable = true) (h : Inv adapters source s)
    (hgood : s.Good adapters source budget) : s.Fits adapters source budget := by
  rcases @step_poll _ _ adapters source budget s hstore h with ⟨hmemo, -⟩ | ⟨-, heq⟩
  · refine fits_of_allDelivered h (hgood.quiet ?_)
    rw [polled_quiet hstore hmemo]
  · obtain ⟨n, hall⟩ := hgood.drains
    cases n with
    | zero => exact fits_of_allDelivered h hall
    | succ n =>
      -- The first poll reads; the others are quiet.
      rw [List.replicate_succ, Run.run_cons, heq, run_polls hstore h.afterRead afterRead_memo] at hall
      exact (afterRead_iff h).mp hall

theorem Inv.start {reader : Reader} {file : File} (hmemo : reader.memo source.path = none)
    (hoffset : reader.offsets file.id = none) : Inv adapters source { reader, file, delivered := [] } := by
  have hoff : ({ reader, file, delivered := [] } : Tailing Kind).offset = 0 := by
    simp only [offset, hoffset, Option.getD_none]
  refine ⟨?_, ?_, ?_, ?_⟩
  · rw [hoff]
    exact Nat.zero_le _
  · rw [hoff]
    exact Whole.nil
  · rw [hoff]
    rfl
  · intro memo h
    rw [hmemo] at h
    cases h

theorem Inv.run (hstore : source.store.isReadable = true) (h : Inv adapters source s) (steps : List TailStep) :
    Inv adapters source (Run.run (Tailing.step adapters source budget) s steps) :=
  Run.invariant _ (Inv adapters source) (fun _ op hs => hs.step hstore op) h steps

theorem Settled.run (hstore : source.store.isReadable = true) (h : Inv adapters source s)
    (hs : s.Settled adapters source) {steps : List TailStep}
    (hfits : ∀ before after, steps = before ++ after →
      (Run.run (Tailing.step adapters source budget) s before).Fits adapters source budget) :
    (Run.run (Tailing.step adapters source budget) s steps).Settled adapters source := by
  induction steps generalizing s with
  | nil => exact hs
  | cons op steps ih =>
    refine ih (h.step hstore op) (hs.step hstore h (hfits [] (op :: steps) rfl) op) ?_
    intro before after heq
    exact hfits (op :: before) after (by rw [heq]; rfl)

end Tailing

/-- **The tail is exact where no read leaves an event behind.** Over a run of appends and polls, from a reader that has
not polled this file: the tail is good in every state exactly where in every state one read holds every unread whole
line that maps to an event. -/
theorem tail_exact (hstore : source.store.isReadable = true) {reader : Reader} {file : File}
    (hmemo : reader.memo source.path = none) (hoffset : reader.offsets file.id = none) (steps : List TailStep) :
    (∀ before after, steps = before ++ after →
        (Run.run (Tailing.step adapters source budget) { reader, file, delivered := [] } before).Good
          adapters source budget) ↔
      ∀ before after, steps = before ++ after →
        (Run.run (Tailing.step adapters source budget) { reader, file, delivered := [] } before).Fits
          adapters source budget := by
  have hstart : Tailing.Inv adapters source { reader, file, delivered := [] } := Tailing.Inv.start hmemo hoffset
  have hsettled : Tailing.Settled adapters source { reader, file, delivered := [] } := by
    intro h
    rw [hmemo] at h
    cases h
  constructor
  · intro hgood before after heq
    exact Tailing.fits_of_good hstore (hstart.run hstore before) (hgood before after heq)
  · intro hfits before after heq
    refine Tailing.good_of_fits hstore (hstart.run hstore before) ?_ (hfits before after heq)
    refine hsettled.run hstore hstart ?_
    intro before' after' heq'
    exact hfits before' (after' ++ after) (by rw [heq, heq', List.append_assoc])

/-! ## A read the budget cut short -/

namespace Withheld

/-- No line is JSON, so each is one unknown event. -/
def unparsed : Adapters Unit Unit where
  mapRecord _ _ := none
  sessionMeta _ _ := none
  unparsable _ := ()
  isUnknown _ := true
  truncateStrings _ kind := kind

def session : Source := { store := .claude, path := "session.jsonl" }

/-- Room for one of the file's two lines. -/
def oneLine : Budget := { headerBytes := 256, readBytes := 2, frameBytes := 32768 }

def file : File := { id := { dev := 1, ino := 1 }, bytes := [0x78, newline, 0x78, newline], mtime := 0, mtimeNsec := 0 }

def start : Tailing Unit := { reader := Reader.new, file, delivered := [] }

end Withheld

theorem tail_exact_withheld :
    (∀ before after, [TailStep.poll none] = before ++ after →
        (Run.run (Tailing.step Withheld.unparsed Withheld.session Withheld.oneLine) Withheld.start before).Good
          Withheld.unparsed Withheld.session Withheld.oneLine) ↔
      ∀ before after, [TailStep.poll none] = before ++ after →
        (Run.run (Tailing.step Withheld.unparsed Withheld.session Withheld.oneLine) Withheld.start before).Fits
          Withheld.unparsed Withheld.session Withheld.oneLine :=
  tail_exact Withheld.unparsed Withheld.session Withheld.oneLine rfl rfl rfl [.poll none]

/-- One poll of two lines, with room for one: the next poll answers `Unchanged`, and the second line is withheld. -/
theorem not_every_line_delivered :
    (∀ line ∈ Lines.splitInclusive newline Withheld.file.bytes, line.length ≤ Withheld.oneLine.readBytes) ∧
      ¬ (Run.run (Tailing.step Withheld.unparsed Withheld.session Withheld.oneLine) Withheld.start [.poll none]).Good
        Withheld.unparsed Withheld.session Withheld.oneLine := by
  refine ⟨by decide, fun hgood => ?_⟩
  have hall := hgood.quiet rfl
  have hlen := congrArg List.length hall
  revert hlen
  decide +kernel

end TmuxAgents.Transcript
