/-
The first page of a transcript, whose walk starts at the end of the file.

What stands behind the last newline is dropped from the first chunk only. Where it is a chunk
or more the walk goes on with it, and once it has found a newline maps it like a record; so the
page is a plain split into lines exactly when the tail is short, holds nothing, or is all that
the read budget lets the walk see.
-/
import TmuxAgents.Transcript.Paging

namespace TmuxAgents.Transcript

open Lines

variable {Kind Session : Type} {adapters : Adapters Kind Session}

/-! ## A walk, round by round -/

section Walk

variable {bytes : Bytes} {P : Nat → Accumulator Kind → Prop}

/-- A walk ends with what has a property of where it got to, but for running out of its budget. -/
def Reaches (P : Nat → Accumulator Kind → Prop) (start : Nat) (result : Accumulator Kind × Bool) : Prop :=
  ∃ s ≤ start, ∃ acc, P s acc ∧ (result.1 = acc ∨ result.1 = { acc with truncated := true })

theorem Reaches.mono {start more : Nat} {result : Accumulator Kind × Bool} (h : Reaches P start result) (hle : start ≤ more) :
    Reaches P more result := by
  obtain ⟨s, hs, rest⟩ := h
  exact ⟨s, Nat.le_trans hs hle, rest⟩

theorem Reaches.shows {start : Nat} {result : Accumulator Kind × Bool} (h : Reaches P start result) :
    ∃ s acc, P s acc ∧ result.1.events = acc.events ∧ result.1.unknown = acc.unknown := by
  obtain ⟨s, -, acc, hacc, hresult | hresult⟩ := h
  · exact ⟨s, acc, hacc, by rw [hresult], by rw [hresult]⟩
  · exact ⟨s, acc, hacc, by rw [hresult], by rw [hresult]⟩

/-- A round keeps what the walk behind it keeps. -/
theorem round_of_scan
    (habsorb : ∀ s e acc, e ≤ s → Whole newline (bytes.take e) → P s acc →
      P e (acc.absorb adapters (readRange bytes e s) e))
    {low : Nat} (hscan : ∀ start acc, start ≤ bytes.length → low ≤ start → P start acc →
      Reaches P start (scan adapters bytes low (readRange bytes low start) false acc))
    {start : Nat} {acc : Accumulator Kind} (hstart : start ≤ bytes.length) (hlow : low ≤ start) (h : P start acc) :
    Reaches P start (round adapters bytes low start acc) := by
  rw [round]
  by_cases hhead : low = 0
  · rw [if_pos hhead, scan_head]
    exact ⟨0, Nat.zero_le _, _, habsorb start 0 acc (Nat.zero_le _) (.inl List.take_zero) h, .inl rfl⟩
  · rw [if_neg hhead]
    cases hpos : position newline (readRange bytes low start) with
    | none => exact hscan start acc hstart hlow h
    | some i =>
      obtain ⟨hbound, hcut, -⟩ := position_pending hstart hpos
      exact (hscan (low + i + 1) _ (Nat.le_trans hbound hstart) (by omega)
        (habsorb start (low + i + 1) acc hbound hcut h)).mono hbound

/-- **What every round of a walk keeps, the walk keeps.** -/
theorem scan_reaches
    (habsorb : ∀ s e acc, e ≤ s → Whole newline (bytes.take e) → P s acc →
      P e (acc.absorb adapters (readRange bytes e s) e))
    (hread : ∀ s acc r, P s acc → P s { acc with readBytes := r })
    {lo start : Nat} {acc : Accumulator Kind} (hstart : start ≤ bytes.length) (hlo : lo ≤ start) (h : P start acc) :
    Reaches P start (scan adapters bytes lo (readRange bytes lo start) false acc) := by
  induction lo using Nat.strong_induction_on generalizing start acc with
  | _ lo ih =>
    by_cases hzero : lo = 0
    · subst hzero
      rw [scan_head]
      exact ⟨start, Nat.le_refl _, acc, h, .inl rfl⟩
    by_cases hfull : acc.isFull = true
    · rw [scan_full hzero hfull]
      exact ⟨start, Nat.le_refl _, acc, h, .inl rfl⟩
    rw [Bool.not_eq_true] at hfull
    by_cases hbudget : acc.req.budget.readBytes ≤ acc.readBytes
    · rw [scan_spent hzero hfull hbudget]
      exact ⟨start, Nat.le_refl _, acc, h, .inr rfl⟩
    obtain ⟨low, hlow, -, hround⟩ := @scan_round _ _ adapters acc bytes lo start _ false hstart hlo
      (fun h => absurd h Bool.false_ne_true) rfl hzero hfull (Nat.not_le.mp hbudget)
    rw [hround]
    exact round_of_scan habsorb (fun start acc hstart hle h => ih low hlow hstart hle h) hstart
      (Nat.le_trans (Nat.le_of_lt hlow) hlo) (hread start acc _ h)

end Walk

/-! ## What a page has of the lines -/

section Page

variable {store : Store} {id : FileId} {bytes : Bytes} {req : WindowRequest} {base : List (Event Kind)} {c u s e : Nat}
  {acc : Accumulator Kind}

/-- The page after the lines from `s` to `c` were offered, behind what came before them. -/
structure Page (adapters : Adapters Kind Session) (store : Store) (id : FileId) (bytes : Bytes) (req : WindowRequest)
    (c : Nat) (base : List (Event Kind)) (u s : Nat) (acc : Accumulator Kind) : Prop where
  store_eq : acc.store = store
  id_eq : acc.id = id
  size_eq : acc.size = bytes.length
  le : s ≤ c
  whole : Whole newline (bytes.take s)
  offered : ∃ m, Offered adapters req acc (base ++ (between adapters store id bytes s c).reverse) m
  unknown : acc.unknown = u + (mapRange adapters store id bytes.length (readRange bytes s c) s).2

/-- Lines offered to an accumulator of the file. -/
theorem absorb_eq (hstore : acc.store = store) (hid : acc.id = id) (hsize : acc.size = bytes.length) :
    acc.absorb adapters (readRange bytes e s) e = Accumulator.pushNewestFirst adapters
      { acc with unknown := acc.unknown + (mapRange adapters store id bytes.length (readRange bytes e s) e).2 }
      (between adapters store id bytes e s).reverse := by
  rw [Accumulator.absorb, hstore, hid, hsize]
  rfl

theorem between_unknown (hes : e ≤ s) (hsc : s ≤ c) (hc : c ≤ bytes.length) (hs : Whole newline (bytes.take s)) :
    (mapRange adapters store id bytes.length (readRange bytes e c) e).2 =
      (mapRange adapters store id bytes.length (readRange bytes e s) e).2 +
        (mapRange adapters store id bytes.length (readRange bytes s c) s).2 := by
  have hstart : e + (readRange bytes e s).length = s := by
    rw [length_readRange (Nat.le_trans hsc hc)]
    omega
  rw [← readRange_append hes hsc, mapRange_append_unknown _ _ _ _ _ (whole_readRange hes hs), hstart]

theorem Page.absorb (hlast : 1 ≤ req.last) (hbefore : req.before = none) (hc : c ≤ bytes.length)
    (h : Page adapters store id bytes req c base u s acc) (hes : e ≤ s) (hwhole : Whole newline (bytes.take e)) :
    Page adapters store id bytes req c base u e (acc.absorb adapters (readRange bytes e s) e) := by
  obtain ⟨m, hoffered⟩ := h.offered
  rw [absorb_eq h.store_eq h.id_eq h.size_eq]
  have hframe := push_frame adapters
    { acc with unknown := acc.unknown + (mapRange adapters store id bytes.length (readRange bytes e s) e).2 }
    (between adapters store id bytes e s).reverse
  refine ⟨hframe.1.trans h.store_eq, hframe.2.1.trans h.id_eq, hframe.2.2.1.trans h.size_eq,
    Nat.le_trans hes h.le, hwhole, ?_, ?_⟩
  · have hcongr : Offered adapters req
        { acc with unknown := acc.unknown + (mapRange adapters store id bytes.length (readRange bytes e s) e).2 }
        (base ++ (between adapters store id bytes s c).reverse) m := hoffered.congr rfl rfl rfl rfl
    obtain ⟨m', hpush⟩ := hcongr.push hlast
      (fun event (_ : event ∈ (between adapters store id bytes e s).reverse) => by rw [hbefore]; rfl)
    rw [List.append_assoc, ← List.reverse_append, between_append adapters store id bytes hes h.le hc h.whole] at hpush
    exact ⟨m', hpush⟩
  · rw [push_unknown, between_unknown hes h.le hc h.whole]
    simp only [h.unknown]
    omega

theorem Page.read (h : Page adapters store id bytes req c base u s acc) (r : Nat) :
    Page adapters store id bytes req c base u s { acc with readBytes := r } := by
  obtain ⟨m, hoffered⟩ := h.offered
  exact ⟨h.store_eq, h.id_eq, h.size_eq, h.le, h.whole, ⟨m, hoffered.congr rfl rfl rfl rfl⟩, h.unknown⟩

/-- An accumulator that nothing was offered to. -/
structure Fresh (adapters : Adapters Kind Session) (store : Store) (id : FileId) (bytes : Bytes) (req : WindowRequest)
    (acc : Accumulator Kind) : Prop where
  store_eq : acc.store = store
  id_eq : acc.id = id
  size_eq : acc.size = bytes.length
  offered : Offered adapters req acc [] 0
  unknown : acc.unknown = 0

theorem Fresh.new : Fresh adapters store id bytes req (Accumulator.new store id bytes.length req) :=
  ⟨rfl, rfl, rfl, Offered.fresh, rfl⟩

theorem Fresh.read (h : Fresh adapters store id bytes req acc) (r : Nat) :
    Fresh adapters store id bytes req { acc with readBytes := r } :=
  ⟨h.store_eq, h.id_eq, h.size_eq, h.offered.congr rfl rfl rfl rfl, h.unknown⟩

theorem Fresh.events (h : Fresh adapters store id bytes req acc) : acc.events = [] := h.offered.events

theorem Fresh.page (h : Fresh adapters store id bytes req acc) (hwhole : Whole newline (bytes.take c)) :
    Page adapters store id bytes req c [] 0 c acc := by
  have hnil : (mapRange adapters store id bytes.length (readRange bytes c c) c).2 = 0 := by
    rw [readRange, Nat.sub_self, List.take_zero]
    rfl
  refine ⟨h.store_eq, h.id_eq, h.size_eq, Nat.le_refl c, hwhole, ⟨0, ?_⟩, by rw [hnil, h.unknown]⟩
  rw [between_self]
  exact h.offered

/-- A page whose first lines came with the unfinished one behind them. -/
theorem Fresh.tail (hlast : 1 ≤ req.last) (hbefore : req.before = none) (hc : c ≤ bytes.length)
    (h : Fresh adapters store id bytes req acc) (hwhole : Whole newline (bytes.take c)) (hec : e ≤ c)
    (he : Whole newline (bytes.take e)) :
    Page adapters store id bytes req c (between adapters store id bytes c bytes.length).reverse
      (mapRange adapters store id bytes.length (readRange bytes c bytes.length) c).2 e
      (acc.absorb adapters (readRange bytes e bytes.length) e) := by
  rw [absorb_eq h.store_eq h.id_eq h.size_eq]
  have hframe := push_frame adapters
    { acc with unknown := acc.unknown + (mapRange adapters store id bytes.length (readRange bytes e bytes.length) e).2 }
    (between adapters store id bytes e bytes.length).reverse
  refine ⟨hframe.1.trans h.store_eq, hframe.2.1.trans h.id_eq, hframe.2.2.1.trans h.size_eq, hec, he, ?_, ?_⟩
  · have hcongr : Offered adapters req
        { acc with unknown := acc.unknown + (mapRange adapters store id bytes.length (readRange bytes e bytes.length) e).2 }
        [] 0 := h.offered.congr rfl rfl rfl rfl
    obtain ⟨m, hpush⟩ := hcongr.push hlast
      (fun event (_ : event ∈ (between adapters store id bytes e bytes.length).reverse) => by rw [hbefore]; rfl)
    rw [List.nil_append] at hpush
    rw [← List.reverse_append, between_append adapters store id bytes hec hc (Nat.le_refl _) hwhole]
    exact ⟨m, hpush⟩
  · rw [push_unknown, between_unknown hec hc (Nat.le_refl _) hwhole]
    simp only [h.unknown]
    omega

end Page

/-! ## The end of the file -/

section End

variable {store : Store} {id : FileId} {bytes : Bytes} {req : WindowRequest} {acc : Accumulator Kind}

/-- There is no newline past the last line's end. -/
theorem not_mem_tail {low hi : Nat} (hlow : completeLen newline bytes ≤ low) : newline ∉ readRange bytes low hi := by
  intro hmem
  obtain ⟨more, hmore⟩ : ∃ more, low = completeLen newline bytes + more := ⟨low - completeLen newline bytes, by omega⟩
  rw [readRange, hmore, ← List.drop_drop] at hmem
  exact (complete_split newline bytes).2 (List.mem_of_mem_drop (List.mem_of_mem_take hmem))

/-- A line start is not past it. -/
theorem le_lastLine {e : Nat} (he : e ≤ bytes.length) (hwhole : Whole newline (bytes.take e)) :
    e ≤ completeLen newline bytes := by
  have h := le_completeLen hwhole (b := bytes.drop e)
  rwa [List.take_append_drop, List.length_take_of_le he] at h

theorem Fresh.not_full (hlast : 1 ≤ req.last) (h : Fresh adapters store id bytes req acc) : acc.isFull = false :=
  Bool.eq_false_iff.mpr fun hfull => h.offered.full_pos hlast hfull rfl

/-- The first round drops what is behind the last newline, if it has found one. -/
theorem scan_first (hlast : 1 ≤ req.last) (hc : 0 < completeLen newline bytes)
    (h : Fresh adapters store id bytes req acc) (hread : acc.readBytes = 0) (hbudget : 0 < req.budget.readBytes) :
    ∃ low, low = bytes.length - min chunkBytes req.budget.readBytes ∧
      scan adapters bytes bytes.length [] true acc =
        if low < completeLen newline bytes then
          round adapters bytes low (completeLen newline bytes) { acc with readBytes := bytes.length - low }
        else scan adapters bytes low (readRange bytes low bytes.length) false { acc with readBytes := bytes.length - low } := by
  have hle := completeLen_le newline bytes
  have hreq := h.offered.req_eq
  refine ⟨_, rfl, ?_⟩
  rw [scan, if_neg (by omega), if_neg (by rw [h.not_full hlast]; decide), if_neg (by rw [hreq]; omega)]
  simp only [hreq, hread, Nat.sub_zero, Nat.zero_add, List.append_nil]
  generalize hlowdef : bytes.length - min chunkBytes req.budget.readBytes = low
  have hlowle : low ≤ bytes.length := by omega
  rw [length_readRange (Nat.le_refl _)]
  by_cases hlow : low < completeLen newline bytes
  · rw [if_pos hlow]
    obtain ⟨hwhole, htail⟩ := complete_split newline bytes
    -- what is pending is whole lines and the unfinished one
    have hsplit : readRange bytes low bytes.length =
        readRange bytes low (completeLen newline bytes) ++ bytes.drop (completeLen newline bytes) := by
      rw [← readRange_append (Nat.le_of_lt hlow) hle]
      congr 1
      rw [readRange, List.take_of_length_le (by rw [List.length_drop])]
    have hlines := whole_readRange (Nat.le_of_lt hlow) hwhole
    have hcomplete := completeLen_append hlines htail
    rw [length_readRange hle] at hcomplete
    have hclip : ∃ i, rposition newline (readRange bytes low bytes.length) = some i ∧
        (readRange bytes low bytes.length).take (i + 1) = readRange bytes low (completeLen newline bytes) := by
      rw [hsplit]
      cases hpos : rposition newline (readRange bytes low (completeLen newline bytes) ++
          bytes.drop (completeLen newline bytes)) with
      | none =>
        rw [completeLen, hpos] at hcomplete
        have hzero : 0 = completeLen newline bytes - low := hcomplete
        omega
      | some i =>
        rw [completeLen, hpos] at hcomplete
        refine ⟨i, rfl, List.take_left' ?_⟩
        rw [length_readRange hle]
        exact hcomplete.symm
    obtain ⟨i, hpos, htake⟩ := hclip
    simp only [hpos, htake, if_true, round]
    by_cases hzero : low = 0
    · subst hzero
      simp only [if_true, List.drop_zero, List.take_zero]
    · simp only [if_neg hzero]
      cases hfirst : position newline (readRange bytes low (completeLen newline bytes)) with
      | none => rfl
      | some k =>
        have hbound := (position_pending hle hfirst).1
        simp only [Option.map_some, take_pending hbound, drop_pending, Nat.add_assoc, Option.elim_some]
  · rw [if_neg hlow]
    have hnone := rposition_eq_none.mpr (@not_mem_tail bytes low bytes.length (Nat.not_lt.mp hlow))
    have hpos : 0 < low := by omega
    simp only [hnone, if_true, if_pos hpos]

/-- Past the last newline the walk goes on until its budget is spent or it has found the newline. -/
theorem scan_tail (hlast : 1 ≤ req.last) {lo : Nat} (hlo : completeLen newline bytes ≤ lo) (hle : lo ≤ bytes.length)
    (hc : 0 < completeLen newline bytes) (h : Fresh adapters store id bytes req acc)
    (hread : acc.readBytes + lo = bytes.length) :
    (req.budget.readBytes ≤ bytes.length - completeLen newline bytes ∧ ∃ acc', Fresh adapters store id bytes req acc' ∧
        (scan adapters bytes lo (readRange bytes lo bytes.length) false acc).1 = { acc' with truncated := true }) ∨
      (bytes.length - completeLen newline bytes < req.budget.readBytes ∧ ∃ low < completeLen newline bytes,
        ∃ acc', Fresh adapters store id bytes req acc' ∧
          scan adapters bytes lo (readRange bytes lo bytes.length) false acc =
            round adapters bytes low bytes.length acc') := by
  induction lo using Nat.strong_induction_on generalizing acc with
  | _ lo ih =>
    have hreq := h.offered.req_eq
    by_cases hbudget : req.budget.readBytes ≤ acc.readBytes
    · refine .inl ⟨by omega, acc, h, ?_⟩
      rw [scan_spent (by omega) (h.not_full hlast) (by rw [hreq]; exact hbudget)]
    · obtain ⟨low, hlow, hlowdef, hround⟩ := @scan_round _ _ adapters acc bytes lo bytes.length _ false (Nat.le_refl _) hle
        (fun h => absurd h Bool.false_ne_true) rfl (by omega) (h.not_full hlast) (by rw [hreq]; exact Nat.not_le.mp hbudget)
      rw [hreq] at hlowdef
      by_cases hfound : low < completeLen newline bytes
      · exact .inr ⟨by omega, low, hfound, _, h.read _, hround⟩
      · have hnone := position_eq_none.mpr (@not_mem_tail bytes low bytes.length (Nat.not_lt.mp hfound))
        rw [round, if_neg (by omega), hnone, Option.elim_none] at hround
        rw [hround]
        exact ih low hlow (Nat.not_lt.mp hfound) (by omega) (h.read _) (by simp only; omega)

/-- **What the walk of a first page ends with**: the lines of the file, or nothing, or the lines with what was behind
them. -/
theorem first_scan (hlast : 1 ≤ req.last) (hbefore : req.before = none) (hc : 0 < completeLen newline bytes) :
    (min chunkBytes req.budget.readBytes ≤ bytes.length - completeLen newline bytes →
        req.budget.readBytes ≤ bytes.length - completeLen newline bytes → ∃ acc, Fresh adapters store id bytes req acc ∧
          (scan adapters bytes bytes.length [] true (Accumulator.new store id bytes.length req)).1 =
            { acc with truncated := true }) ∧
      (bytes.length - completeLen newline bytes < min chunkBytes req.budget.readBytes →
        Reaches (Page adapters store id bytes req (completeLen newline bytes) [] 0) (completeLen newline bytes)
          (scan adapters bytes bytes.length [] true (Accumulator.new store id bytes.length req))) ∧
      (chunkBytes ≤ bytes.length - completeLen newline bytes →
        bytes.length - completeLen newline bytes < req.budget.readBytes →
        Reaches (Page adapters store id bytes req (completeLen newline bytes)
            (between adapters store id bytes (completeLen newline bytes) bytes.length).reverse
            (mapRange adapters store id bytes.length (readRange bytes (completeLen newline bytes) bytes.length)
              (completeLen newline bytes)).2)
          (completeLen newline bytes)
          (scan adapters bytes bytes.length [] true (Accumulator.new store id bytes.length req))) := by
  have hle := completeLen_le newline bytes
  have hwhole := (complete_split newline bytes).1
  have hnew : Fresh adapters store id bytes req (Accumulator.new store id bytes.length req) := Fresh.new
  have habsorb : ∀ base u s e (acc : Accumulator Kind), e ≤ s → Whole newline (bytes.take e) →
      Page adapters store id bytes req (completeLen newline bytes) base u s acc →
      Page adapters store id bytes req (completeLen newline bytes) base u e
        (acc.absorb adapters (readRange bytes e s) e) :=
    fun base u s e acc hes he h => h.absorb hlast hbefore hle hes he
  by_cases hbudget : req.budget.readBytes = 0
  · refine ⟨fun _ _ => ⟨_, hnew, ?_⟩, fun h => by omega, fun _ h => by omega⟩
    rw [scan_spent (by omega) (hnew.not_full hlast) (by rw [hnew.offered.req_eq, hbudget]; exact Nat.zero_le _)]
  obtain ⟨low, hlowdef, hscan⟩ := scan_first hlast hc hnew rfl (Nat.pos_of_ne_zero hbudget)
  have hlowle : low ≤ bytes.length := by omega
  rw [hscan]
  refine ⟨fun hmin hspent => ?_, fun hshort => ?_, fun hlong hseen => ?_⟩
  · rw [if_neg (by omega)]
    rcases scan_tail hlast (Nat.le_of_not_lt (by omega)) hlowle hc (hnew.read (bytes.length - low)) (by simp only; omega) with
      ⟨-, rest⟩ | ⟨h, -⟩
    · exact rest
    · omega
  · rw [if_pos (by omega)]
    exact round_of_scan (habsorb _ _) (fun start acc hstart hlow h => scan_reaches (habsorb _ _) (fun s acc r h => h.read r)
      hstart hlow h) hle (by omega) ((hnew.read (bytes.length - low)).page hwhole)
  · rw [if_neg (by omega)]
    rcases scan_tail hlast (Nat.le_of_not_lt (by omega)) hlowle hc (hnew.read (bytes.length - low)) (by simp only; omega) with
      ⟨h, -⟩ | ⟨-, low, hlow, acc, hacc, hround⟩
    · omega
    · rw [hround, round]
      by_cases hhead : low = 0
      · rw [if_pos hhead, scan_head]
        exact ⟨0, Nat.zero_le _, _, hacc.tail hlast hbefore hle hwhole (Nat.zero_le _) (.inl List.take_zero), .inl rfl⟩
      · rw [if_neg hhead]
        obtain ⟨front, rest, heq, -⟩ := newline_mem_of_whole hle hlow hle hwhole
        cases hpos : position newline (readRange bytes low bytes.length) with
        | none =>
          refine absurd ?_ (position_eq_none.mp hpos)
          rw [heq]
          exact List.mem_append_right _ List.mem_cons_self
        | some i =>
          obtain ⟨hbound, hcut, -⟩ := position_pending (Nat.le_refl _) hpos
          have hend := le_lastLine hbound hcut
          rw [Option.elim_some]
          exact (scan_reaches (habsorb _ _) (fun s acc r h => h.read r) hbound (by omega)
            (hacc.tail hlast hbefore hle hwhole hend hcut)).mono hend

end End

/-! ## The page -/

/-- The page is a plain split: its events are a front of those of the newline-terminated lines, newest first, and its
unknown events are those of the lines from a line start on. -/
structure PlainSplit (adapters : Adapters Kind Session) (store : Store) (file : File) (req : WindowRequest)
    (w : Window Kind Session) : Prop where
  events : w.events <+:
    (mapRange adapters store file.id file.bytes.length (file.bytes.take (completeLen newline file.bytes)) 0).1.reverse.map
      (shown adapters req)
  unknown : ∃ s ≤ completeLen newline file.bytes, Whole newline (file.bytes.take s) ∧
    w.unknown = (mapRange adapters store file.id file.bytes.length
      (readRange file.bytes s (completeLen newline file.bytes)) s).2

section

variable {source : Source} {file : File} {req : WindowRequest}

/-- A page that has what was offered of the lines. -/
theorem plainSplit_of_page {acc : Accumulator Kind} {s : Nat}
    (h : Page adapters source.store file.id file.bytes req (completeLen newline file.bytes) [] 0 s acc)
    {w : Window Kind Session} (hevents : w.events = acc.events) (hunknown : w.unknown = acc.unknown) :
    PlainSplit adapters source.store file req w := by
  have hle := completeLen_le newline file.bytes
  have hall : (mapRange adapters source.store file.id file.bytes.length
      (file.bytes.take (completeLen newline file.bytes)) 0).1 =
        between adapters source.store file.id file.bytes 0 (completeLen newline file.bytes) := by
    rw [between, readRange, List.drop_zero, Nat.sub_zero]
  obtain ⟨m, hoffered⟩ := h.offered
  refine ⟨?_, s, h.le, h.whole, by rw [hunknown, h.unknown, Nat.zero_add]⟩
  rw [hevents, hoffered.events, List.nil_append, hall,
    ← between_append adapters source.store file.id file.bytes (Nat.zero_le s) h.le hle h.whole, List.reverse_append,
    List.map_append, List.map_take]
  exact (List.take_prefix m _).trans (List.prefix_append _ _)

/-- A page without events. -/
theorem plainSplit_empty {w : Window Kind Session} (hevents : w.events = []) (hunknown : w.unknown = 0) :
    PlainSplit adapters source.store file req w := by
  refine ⟨by rw [hevents]; exact List.nil_prefix, _, Nat.le_refl _, (complete_split newline file.bytes).1, ?_⟩
  rw [hunknown, readRange, Nat.sub_self, List.take_zero]
  rfl

/-- A page whose first event is of what is behind the last newline. -/
theorem not_plainSplit {acc : Accumulator Kind} {u s : Nat}
    (hne : between adapters source.store file.id file.bytes (completeLen newline file.bytes) file.bytes.length ≠ [])
    (h : Page adapters source.store file.id file.bytes req (completeLen newline file.bytes)
      (between adapters source.store file.id file.bytes (completeLen newline file.bytes) file.bytes.length).reverse u s acc)
    {w : Window Kind Session} (hevents : w.events = acc.events) : ¬ PlainSplit adapters source.store file req w := by
  intro hplain
  obtain ⟨m, hoffered⟩ := h.offered
  have hle := completeLen_le newline file.bytes
  obtain ⟨event, rest, hrev⟩ := List.exists_cons_of_ne_nil (mt List.reverse_eq_nil_iff.mp hne)
  rw [hrev] at hoffered
  obtain ⟨k, hk⟩ := Nat.exists_eq_succ_of_ne_zero (hoffered.first (List.cons_ne_nil _ _))
  have hmem : shown adapters req event ∈ w.events := by
    rw [hevents, hoffered.events, hk]
    exact List.mem_map_of_mem (by simp)
  have htail : completeLen newline file.bytes ≤ event.cursor.offset := by
    refine (between_offset adapters source.store file.id file.bytes hle (Nat.le_refl _) ?_).1
    rw [← List.mem_reverse, hrev]
    exact List.mem_cons_self
  obtain ⟨other, hother, heq⟩ := List.mem_map.mp (hplain.events.subset hmem)
  have hall : (mapRange adapters source.store file.id file.bytes.length
      (file.bytes.take (completeLen newline file.bytes)) 0).1 =
        between adapters source.store file.id file.bytes 0 (completeLen newline file.bytes) := by
    rw [between, readRange, List.drop_zero, Nat.sub_zero]
  rw [hall, List.mem_reverse] at hother
  have hbound := (between_offset adapters source.store file.id file.bytes (Nat.zero_le _) hle hother).2
  have hcursor := congrArg Event.cursor heq
  rw [shown_cursor, shown_cursor] at hcursor
  rw [hcursor] at hbound
  omega

/-- What is behind the last newline has an event when it bears one as a line. -/
theorem between_tail :
    (between adapters source.store file.id file.bytes (completeLen newline file.bytes) file.bytes.length = [] ↔
        bears adapters source.store (file.bytes.drop (completeLen newline file.bytes)) = false) ∧
      (bears adapters source.store (file.bytes.drop (completeLen newline file.bytes)) = false →
        (mapRange adapters source.store file.id file.bytes.length
          (readRange file.bytes (completeLen newline file.bytes) file.bytes.length)
          (completeLen newline file.bytes)).2 = 0) := by
  have htail := (complete_split newline file.bytes).2
  have hread : readRange file.bytes (completeLen newline file.bytes) file.bytes.length =
      file.bytes.drop (completeLen newline file.bytes) := by
    rw [readRange, List.take_of_length_le (by rw [List.length_drop])]
  rw [between, hread]
  by_cases hnil : file.bytes.drop (completeLen newline file.bytes) = []
  · rw [hnil]
    exact ⟨⟨fun _ => rfl, fun _ => rfl⟩, fun _ => rfl⟩
  · have hsplit := splitInclusive_unfinished htail hnil
    refine ⟨?_, fun hbears => ?_⟩
    · rw [mapRange_eq_nil, hsplit]
      simp
    · rw [mapRange, hsplit]
      simp only [mapLines, Nat.add_zero]
      exact mapLine_unknown _ _ _ ((mapLine_eq_nil _ _ _).mpr hbears)

/-- The first page is what the walk from the end of the file collects. -/
theorem window_first {reader : Reader} (hbefore : req.before = none) {w : Window Kind Session}
    (hw : (reader.window adapters source (some file) req).2 = .ok w) :
    w.events = (scan adapters file.bytes file.bytes.length [] true
        (Accumulator.new source.store file.id file.bytes.length req)).1.events ∧
      w.unknown = (scan adapters file.bytes file.bytes.length [] true
        (Accumulator.new source.store file.id file.bytes.length req)).1.unknown := by
  rw [Reader.window] at hw
  split at hw
  · cases hw
  · split at hw
    · cases hw
    next stat hstat =>
      have hmemo : stat = file.memo := by
        rw [Transcript.stat] at hstat
        split at hstat
        · cases hstat
        · exact (Except.ok.inj hstat).symm
      subst hmemo
      simp only [hbefore, startWindow, Option.elim_none, Option.elim_some, Option.isSome_none] at hw
      cases hw
      exact ⟨rfl, rfl⟩

/-- **The first page is a plain split of the file into lines exactly when** what is behind its last newline is shorter
than a chunk, or fills the read budget, or bears no event (or no event is asked for). -/
theorem first_page_plain (reader : Reader) (source : Source) (file : File) (req : WindowRequest)
    (hnewline : newline ∈ file.bytes) (hbefore : req.before = none) (w : Window Kind Session)
    (hw : (reader.window adapters source (some file) req).2 = .ok w) :
    PlainSplit adapters source.store file req w ↔
      file.bytes.length - completeLen newline file.bytes < chunkBytes ∨
        req.budget.readBytes ≤ file.bytes.length - completeLen newline file.bytes ∨ req.last = 0 ∨
        bears adapters source.store (file.bytes.drop (completeLen newline file.bytes)) = false := by
  have hle := completeLen_le newline file.bytes
  have hc : 0 < completeLen newline file.bytes := by
    refine Nat.pos_of_ne_zero fun hzero => (complete_split newline file.bytes).2 ?_
    rw [hzero, List.drop_zero]
    exact hnewline
  obtain ⟨hevents, hunknown⟩ := window_first hbefore hw
  by_cases hlast : req.last = 0
  · have hfull : (Accumulator.new source.store file.id file.bytes.length req : Accumulator Kind).isFull = true := by
      simp [Accumulator.isFull, Accumulator.new, hlast]
    rw [scan_full (by omega) hfull] at hevents hunknown
    exact ⟨fun _ => .inr (.inr (.inl hlast)), fun _ => plainSplit_empty hevents hunknown⟩
  obtain ⟨hspent, hshort, hlong⟩ := @first_scan _ _ adapters source.store file.id file.bytes req
    (Nat.one_le_iff_ne_zero.mpr hlast) hbefore hc
  by_cases hbudget : req.budget.readBytes ≤ file.bytes.length - completeLen newline file.bytes
  · obtain ⟨acc, hfresh, hscan⟩ := hspent (Nat.le_trans (Nat.min_le_right _ _) hbudget) hbudget
    rw [hscan] at hevents hunknown
    exact ⟨fun _ => .inr (.inl hbudget),
      fun _ => plainSplit_empty (hevents.trans hfresh.events) (hunknown.trans hfresh.unknown)⟩
  by_cases hchunk : file.bytes.length - completeLen newline file.bytes < chunkBytes
  · obtain ⟨s, acc, hpage, hev, hun⟩ := (hshort (by omega)).shows
    exact ⟨fun _ => .inl hchunk, fun _ => plainSplit_of_page hpage (hevents.trans hev) (hunknown.trans hun)⟩
  obtain ⟨s, acc, hpage, hev, hun⟩ := (hlong (Nat.not_lt.mp hchunk) (Nat.not_le.mp hbudget)).shows
  obtain ⟨htail, htailUnknown⟩ := @between_tail _ _ adapters source file
  constructor
  · intro h
    by_contra hnot
    refine not_plainSplit (fun hnil => hnot (.inr (.inr (.inr (htail.mp hnil))))) hpage (hevents.trans hev) h
  · rintro (h | h | h | h)
    · exact absurd h hchunk
    · exact absurd h hbudget
    · exact absurd h hlast
    · rw [htail.mpr h, htailUnknown h] at hpage
      exact plainSplit_of_page hpage (hevents.trans hev) (hunknown.trans hun)

end

/-- A record, and as much behind its newline as a chunk. -/
def unfinished (width : Nat) : Bytes := [0x78, newline] ++ List.replicate width 0x78

def twoChunks : WindowRequest :=
  { last := 1, before := none, headersOnly := false
    budget := { headerBytes := 256, readBytes := 2 * chunkBytes, frameBytes := 32768 } }

theorem completeLen_unfinished (width : Nat) : completeLen newline (unfinished width) = 2 :=
  completeLen_append (.inr ⟨[0x78], rfl⟩) fun hmem => absurd (List.eq_of_mem_replicate hmem) (by decide)

theorem length_unfinished (width : Nat) : (unfinished width).length = width + 2 := by
  rw [unfinished, List.length_append, List.length_replicate]
  exact Nat.add_comm 2 width

/-- The first page has a first page to be had. -/
theorem window_twoChunks (bytes : Bytes) : ∃ w : Window Unit Unit,
    (Reader.new.window Withheld.unparsed Withheld.session (some (Early.fileOf bytes)) twoChunks).2 = .ok w := by
  cases hscan : scan Withheld.unparsed (Early.fileOf bytes).bytes (Early.fileOf bytes).bytes.length [] true
    (startWindow Withheld.unparsed Withheld.session.store (Early.fileOf bytes).memo (Early.fileOf bytes).bytes twoChunks) with
  | mk acc reachedHead =>
    rw [window_of_scan (by rfl) (by rfl) (by rfl) hscan]
    exact ⟨_, rfl⟩

/-- A short unfinished line is dropped. -/
theorem first_page_plain_short : ∃ w : Window Unit Unit,
    (Reader.new.window Withheld.unparsed Withheld.session (some (Early.fileOf (unfinished 1))) twoChunks).2 = .ok w ∧
      PlainSplit Withheld.unparsed .claude (Early.fileOf (unfinished 1)) twoChunks w := by
  obtain ⟨w, hw⟩ := window_twoChunks (unfinished 1)
  exact ⟨w, hw, (first_page_plain Reader.new Withheld.session _ twoChunks (by decide) rfl w hw).mpr (.inl (by decide))⟩

/-- An unfinished line of a chunk or more is mapped like a record. -/
theorem long_tail_mapped :
    ¬ ∀ (reader : Reader) (source : Source) (file : File) (req : WindowRequest), newline ∈ file.bytes → req.before = none →
      ∀ w : Window Unit Unit, (reader.window Withheld.unparsed source (some file) req).2 = .ok w →
        PlainSplit Withheld.unparsed source.store file req w := by
  intro h
  obtain ⟨w, hw⟩ := window_twoChunks (unfinished chunkBytes)
  have hplain := h Reader.new Withheld.session (Early.fileOf (unfinished chunkBytes)) twoChunks
    (List.mem_append_left _ (List.mem_cons_of_mem _ List.mem_cons_self)) rfl w hw
  have hpos : 0 < chunkBytes := by decide
  have hcomplete : completeLen newline (Early.fileOf (unfinished chunkBytes)).bytes = 2 := completeLen_unfinished chunkBytes
  have hlen : (Early.fileOf (unfinished chunkBytes)).bytes.length = chunkBytes + 2 := length_unfinished chunkBytes
  have hlong := (@first_scan _ _ Withheld.unparsed .claude { dev := 1, ino := 1 }
    (Early.fileOf (unfinished chunkBytes)).bytes twoChunks (Nat.le_refl 1) rfl (by omega)).2.2 (by omega)
    (by simp only [hlen, hcomplete, twoChunks]; omega)
  obtain ⟨s, acc, hpage, hevents, -⟩ := hlong.shows
  refine @not_plainSplit _ _ _ Withheld.session _ _ _ _ _ (fun hnil => ?_) hpage _ ((window_first rfl hw).1.trans hevents) hplain
  have hbears := (@between_tail _ _ Withheld.unparsed Withheld.session (Early.fileOf (unfinished chunkBytes))).1.mp hnil
  rw [hcomplete] at hbears
  obtain ⟨rest, hrest⟩ : ∃ rest, chunkBytes = rest + 1 := ⟨chunkBytes - 1, by omega⟩
  have hdrop : (Early.fileOf (unfinished chunkBytes)).bytes.drop 2 = List.replicate (rest + 1) 0x78 := by rw [hrest]; rfl
  have hstrip : stripEol (List.replicate (rest + 1) 0x78) = List.replicate (rest + 1) 0x78 := by
    simp [stripEol, stripSuffix, List.getLast?_replicate, newline]
  rw [hdrop, bears, hstrip, List.replicate_succ, List.all_cons] at hbears
  cases hbears

end TmuxAgents.Transcript
