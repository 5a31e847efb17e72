/-
Jumps by mouse and by Enter, over every run of events.

A refresh between two presses can put another pane on the pressed line; the
second press then jumps there (`swapped_pane_jumps`).
-/
import TmuxAgents.Ui.PickerJump
import TmuxAgents.Ui.WatchJump

namespace TmuxAgents.Ui

open Run

/-- **A mouse jump goes to the pane pressed twice.** It does while the line of an unpaired press
that the jump is in time for keeps its pane through every event, in lists that `i32` can count:
the press before was unpaired, on the same pane and in time. Pairs share no press, and Enter
goes to the pane drawn as highlighted. -/
theorem jumps_on_pairs (score : Text → Text → Option Nat) :
    (∀ rows pref start exitOnJump events now,
      Along WatchModel.surface.next (WatchModel.KeepsPressed now) ((WatchModel.new rows pref start).withExitOnJump exitOnJump) events →
      WatchModel.surface.JumpsOnPairs ((WatchModel.new rows pref start).withExitOnJump exitOnJump) events now) ∧
    (∀ rows session start events now,
      Along (PickerModel.surface score).next (PickerModel.KeepsPressed score now) (PickerModel.new score rows session start) events →
      (PickerModel.surface score).JumpsOnPairs (PickerModel.new score rows session start) events now) := by
  constructor
  · intro rows pref start exitOnJump events now hevents
    have hnew := WatchModel.new_steady rows pref start exitOnJump
    refine WatchModel.surface_remembers.jumpsOnPairs ?_ ?_ ?_
    · exact congrArg (fun m => m.view.lastClick) (WatchModel.regroup_eq _)
    · intro before after hsplit
      rw [hsplit] at hevents
      exact WatchModel.run_steady hnew fun init e rest hinit => (hevents.of_append init e rest hinit).1
    · intro init e rest hinit line pressed hheld hspan
      have hkept := (hevents init e rest hinit).2 line pressed hheld hspan
      rw [← WatchModel.panes_next] at hkept
      exact hkept
  · intro rows session start events now hevents
    have hnew : (PickerModel.new score rows session start).Steady False :=
      PickerModel.recompute_steady score _ (Nat.zero_lt_succ _) (Nat.zero_lt_succ _)
    refine (PickerModel.surface_remembers score).jumpsOnPairs ?_ ?_ ?_
    · exact View.lastClick_sync _ _ _ _
    · intro before after hsplit
      rw [hsplit] at hevents
      have hrun : (run (PickerModel.surface score).next (PickerModel.new score rows session start) before).Steady False :=
        hevents.of_append.invariant (fun _ m => m.Steady False) hnew fun _ e hm hgood =>
          hm.update score hgood.1 False.elim e.2
      exact hrun.toListed
    · intro init e rest hinit line pressed hheld hspan
      have hkept := (hevents init e rest hinit).2 line pressed hheld hspan
      rw [← PickerModel.panes_next] at hkept
      exact hkept

/-- Three presses on one line: a refresh swaps the rows after the first, which the third is too
late for, and repeats them after the second. -/
theorem jumps_on_pairs_refreshed :
    WatchModel.surface.JumpsOnPairs ((WatchModel.new [rowIn ['1'] ['a'] 1, rowIn ['2'] ['a'] 2] .preview 0).withExitOnJump false)
      [(.resize 40 6, 0), (.mouse ⟨.down, 1, 1⟩, 100), (.rowsRefreshed [rowIn ['1'] ['a'] 3, rowIn ['2'] ['a'] 2], 700),
        (.mouse ⟨.down, 1, 1⟩, 800), (.rowsRefreshed [rowIn ['2'] ['a'] 2, rowIn ['1'] ['a'] 3], 900)] 1000 ∧
    (PickerModel.surface fun _ _ => none).JumpsOnPairs
      (PickerModel.new (fun _ _ => none) [rowIn ['1'] ['a'] 1, rowIn ['2'] ['a'] 2] [] 0)
      [(.resize 40 6, 0), (.mouse ⟨.down, 1, 1⟩, 100), (.rowsRefreshed [rowIn ['1'] ['a'] 3, rowIn ['2'] ['a'] 2], 700),
        (.mouse ⟨.down, 1, 1⟩, 800), (.rowsRefreshed [rowIn ['2'] ['a'] 2, rowIn ['1'] ['a'] 3], 900)] 1000 := by
  constructor
  · refine (jumps_on_pairs fun _ _ => none).1 _ _ _ _ _ _ ?_
    refine (((((Along.nil _).concat ⟨by decide, nofun⟩).concat ⟨by decide, nofun⟩).concat ⟨by decide, ?_⟩).concat
      ⟨by decide, fun _ _ _ _ => rfl⟩).concat ⟨by decide, fun _ _ _ _ => rfl⟩
    intro line pressed hheld hspan
    cases hheld
    exact absurd hspan (by decide)
  · refine (jumps_on_pairs fun _ _ => none).2 _ _ _ _ _ ?_
    refine (((((Along.nil _).concat ⟨by decide, nofun⟩).concat ⟨by decide, nofun⟩).concat ⟨by decide, ?_⟩).concat
      ⟨by decide, fun _ _ _ _ => rfl⟩).concat ⟨by decide, fun _ _ _ _ => rfl⟩
    intro line pressed hheld hspan
    cases hheld
    exact absurd hspan (by decide)

/-- Two presses on one line, a refresh that swaps the rows between them: the client goes to
the pane that was pressed once. -/
theorem swapped_pane_jumps :
    ¬ ∀ (rows : List AgentRow) (events : List (Event × Nat)) (now : Nat), (rows.map AgentRow.paneId).Nodup →
      WatchModel.surface.JumpsOnPairs ((WatchModel.new rows .preview 0).withExitOnJump false) events now := by
  intro h
  have hjumps := h [rowIn ['1'] ['a'] 1, rowIn ['2'] ['a'] 2]
    [(.resize 40 6, 0), (.mouse ⟨.down, 1, 1⟩, 100), (.rowsRefreshed [rowIn ['1'] ['a'] 3, rowIn ['2'] ['a'] 2], 200)] 300 (by decide)
  obtain ⟨before, first, between, line, hsplit, hlanded, -, -, -, -, -, hpane⟩ :=
    hjumps.pair ⟨.down, 1, 1⟩ (rowIn ['2'] ['a'] 2) (by decide)
  match before, hsplit with
  | [], hsplit =>
    cases hsplit
    cases hlanded
  | [_], hsplit =>
    cases hsplit
    obtain rfl : 0 = line := Option.some.inj hlanded
    exact absurd hpane (by decide)
  | [_, _], hsplit =>
    cases hsplit
    cases hlanded
  | _ :: _ :: _ :: rest, hsplit =>
    have hlength := congrArg List.length hsplit
    simp at hlength

end TmuxAgents.Ui
