import ModalEditor.Proofs.CountProduct
import ModalEditor.Proofs.Counted
import ModalEditor.Proofs.WholeLines

/-!
# Deleting lines with a count

A count in front of `dd` deletes the line of the cursor again and again, each time where the cursor
has come to stand.  As long as there are lines below, these come up to the cursor one by one.  When
they are used up the cursor moves up to the last line that is left, and it is that line that goes
next (`Lines.without_afterDeletions`).

So a count that is greater than the number of lines from the cursor on takes lines above the cursor
too, beginning with the last (`Editor.typeKeys_counted_lines`).
-/

namespace ModalEditor

namespace Lines

variable {ls : Lines} {n : Nat}

theorem lastLine_orBlank (ls : Lines) : ls.orBlank.lastLine = ls.lastLine := by
  cases ls <;> rfl

theorem lastLine_without_le (ls : Lines) (n : Nat) : (ls.without n n).lastLine ≤ ls.lastLine := by
  rw [without, lastLine_orBlank]
  simp only [lastLine, List.length_append, List.length_take, List.length_drop]
  omega

/-- What is left when the line of the cursor is deleted `count` times, at first line `n`. -/
def afterDeletions (ls : Lines) (n count : Nat) : Lines :=
  orBlank (ls.take (n - (n + count - ls.length)) ++ ls.drop (n + count))

theorem afterDeletions_zero (h : n < ls.length) : ls.afterDeletions n 0 = ls := by
  have htake : n - (n + 0 - ls.length) = n := by omega
  rw [afterDeletions, htake, Nat.add_zero, List.take_append_drop]
  exact orBlank_of_ne_nil (List.ne_nil_of_length_pos (by omega))

/-- As long as there are lines from the cursor on, those above stay. -/
theorem afterDeletions_of_le (h : n + count ≤ ls.length) :
    ls.afterDeletions n count = orBlank (ls.take n ++ ls.drop (n + count)) := by
  have htake : n - (n + count - ls.length) = n := by omega
  rw [afterDeletions, htake]

/-- When the lines from the cursor on are gone, the last ones above go. -/
theorem afterDeletions_of_ge (h : ls.length ≤ n + count) :
    ls.afterDeletions n count = orBlank (ls.take (ls.length - count)) := by
  have htake : n - (n + count - ls.length) = ls.length - count := by omega
  rw [afterDeletions, htake, List.drop_eq_nil_of_le h, List.append_nil]

/-- Deleting the line that follows `n` lines. -/
theorem without_take_append_drop (hn : n ≤ ls.length) (k : Nat) :
    without (ls.take n ++ ls.drop k) n n = orBlank (ls.take n ++ ls.drop (k + 1)) := by
  have hlength : (ls.take n).length = n := by
    rw [List.length_take]
    omega
  have habove : (ls.take n ++ ls.drop k).take n = ls.take n := by
    rw [List.take_append_of_le_length (by omega), List.take_of_length_le (by omega)]
  have hrest : (ls.take n ++ ls.drop k).drop (n + 1) = ls.drop (k + 1) := by
    rw [List.drop_append, hlength, List.drop_of_length_le (by omega), List.drop_drop,
      List.nil_append, Nat.add_sub_cancel_left]
  rw [without, habove, hrest]

/-- Deleting the last line. -/
theorem without_lastLine (ls : Lines) :
    ls.orBlank.without ls.lastLine ls.lastLine = orBlank (ls.take (ls.length - 1)) := by
  rcases eq_or_ne ls [] with rfl | hne
  · rfl
  · have hrest : ls.drop (ls.lastLine + 1) = [] := List.drop_eq_nil_of_le (by
      rw [lastLine]
      omega)
    rw [orBlank_of_ne_nil hne, without, hrest, List.append_nil, lastLine]

/-- **One more deletion** is at line `n`, or at the last line. -/
theorem without_afterDeletions (h : n < ls.length) (count : Nat) :
    let m := min n (ls.afterDeletions n count).lastLine
    (ls.afterDeletions n count).without m m = ls.afterDeletions n (count + 1) := by
  intro m
  rcases Nat.lt_or_ge (n + count) ls.length with hbelow | hbelow
  · -- There is a line at the cursor.
    have hleft : ls.afterDeletions n count = ls.take n ++ ls.drop (n + count) := by
      rw [afterDeletions_of_le hbelow.le]
      exact orBlank_of_ne_nil (by simp [hbelow])
    have hm : m = n := by
      simp only [m, hleft, lastLine, List.length_append, List.length_take, List.length_drop]
      omega
    rw [hm, hleft, without_take_append_drop h.le, afterDeletions_of_le hbelow, Nat.add_assoc]
  · -- The lines from the cursor on are gone.
    have hleft := afterDeletions_of_ge hbelow
    have hm : m = lastLine (ls.take (ls.length - count)) := by
      simp only [m, hleft, lastLine_orBlank]
      simp only [lastLine, List.length_take]
      omega
    have hlength : (ls.take (ls.length - count)).length = ls.length - count :=
      List.length_take_of_le (Nat.sub_le ..)
    rw [hm, hleft, without_lastLine, hlength, List.take_take, Nat.min_eq_left (Nat.sub_le ..),
      afterDeletions_of_ge (Nat.le_succ_of_le hbelow), Nat.sub_sub]

end Lines

/-- After `count` deletions of the line of the cursor, at first line `n` of `ls`, in normal mode. -/
structure View.Depleted (config : Config) (ls : Lines) (n count : Nat) (v : View) : Prop where
  wellFormed : v.document.WellFormed
  lines : v.document.lines = ls.afterDeletions n count
  cursor : v.document.cursor.line = min n v.document.lines.lastLine
  config : v.config = config
  phase : v.phase = .normal .initial

/-- The command that deletes the line of the cursor. -/
def Command.deleteLine : Command := { operator := 'd', motion := some 'd' }

namespace Editor

open Command (deleteLine)

variable {e y : Editor} {config : Config} {ls : Lines} {n k count : Nat}

/-- One more deletion. -/
theorem exists_attempt_deleteLine (hfree : config.hostCommands? 'd' = none) (h : n < ls.length)
    (hy : y.view.Depleted config ls n k) :
    ∃ z, y.attempt deleteLine = (z, none) ∧ z.view.Depleted config ls n (k + 1) := by
  have hphase : y.phase = .normal .initial := hy.phase
  have hop : y.config.operator? deleteLine.operator = some Operator.delete := by
    rw [show y.config = config from hy.config, Config.operator?, deleteLine, hfree]
    rfl
  let line := y.buffer.cursor.line
  have hline : line < y.lines.length := hy.wellFormed.2.2.1
  have htarget : y.target? deleteLine = some (.ofLines y.lines line line) :=
    target?_wholeLine hphase rfl
  have hplan := plan?_of_range hop rfl htarget
  let z := (y.delete (.ofLines y.lines line line)).leaveVisual
  have hview : z.view = y.view.deleteLines line line := by
    have hmode : (y.view.deleteLines line line).phase.mode ≠ .visual := by
      rw [View.phase_deleteLines, hy.phase]
      decide
    rw [view_leaveVisual, view_delete_ofLines hy.wellFormed (Nat.le_refl _) hline,
      View.leaveVisual_of_ne hmode]
  have hcursor := View.cursor_deleteLines (w := y.view) (Nat.le_refl _) hline
  have hlast := y.lines.lastLine_without_le line
  have hstart : line = min n y.lines.lastLine := hy.cursor
  have hlines : z.view.document.lines = y.lines.without line line := by
    rw [hview, View.lines_deleteLines (Nat.le_refl _) hline]
    rfl
  refine ⟨z, ?_, ?_, ?_, ?_, ?_, ?_⟩
  · rw [attempt_of_some hplan, runPlan_edit rfl]
    rfl
  · rw [hview]
    exact Document.wellFormed_select (Document.wellFormed_erase hy.wellFormed _).1 _
  · have hleft : y.lines = ls.afterDeletions n k := hy.lines
    rw [hlines, hstart, hleft, Lines.without_afterDeletions h]
  · rw [← hview, hlines] at hcursor
    rw [hlines, hcursor]
    dsimp only
    omega
  · rw [hview, View.config_deleteLines]
    exact hy.config
  · rw [hview, View.phase_deleteLines]
    exact hy.phase

/-- As many deletions as one likes. -/
theorem depleted_iterate (hfree : config.hostCommands? 'd' = none) (h : n < ls.length)
    (he : e.view.Depleted config ls n 0) (k : Nat) :
    ((once deleteLine)^[k] e).view.Depleted config ls n k := by
  induction k with
  | zero => exact he
  | succ k ih =>
    obtain ⟨z, hz, hdepleted⟩ := exists_attempt_deleteLine hfree h ih
    rw [Function.iterate_succ_apply', once, hz]
    exact hdepleted

theorem spells_deleteLine (hfree : config.hostCommands? 'd' = none) (hcount : 1 ≤ count)
    (hmax : count ≤ 99999) : Command.Spells config (Nat.toDigits 10 count ++ ['d', 'd'])
      { deleteLine with count } := by
  have hop : config.operator? 'd' = some Operator.delete := by
    rw [Config.operator?, hfree]
    rfl
  have hamount : Digits.amount (Nat.toDigits 10 count) = count := by
    rw [Digits.amount_toDigits hcount]
    exact Nat.min_eq_left hmax
  have hbare : Command.Spells config (deleteLine.operator :: ['d']) deleteLine :=
    .wholeLine (Command.opens_range hop rfl) (.inl rfl)
  have hspells := (hbare.with_count rfl).2 _ (.inr (Digits.isNumeral_toDigits hcount))
  rwa [hamount] at hspells

/-- **Deleting lines with a count** takes the lines from that of the cursor on.  If these are fewer
than the count says, the last lines above them go for those that are missing. -/
theorem typeKeys_counted_lines (he : e.Waiting) (hfree : e.config.hostCommands? 'd' = none)
    (hcount : 1 ≤ count) (hmax : count ≤ 99999) :
    let x := e.typeKeys (Nat.toDigits 10 count ++ ['d', 'd'])
    let line := e.buffer.cursor.line
    let missing := line + count - e.lines.length
    x.lines = Lines.orBlank (e.lines.take (line - missing) ++ e.lines.drop (line + count)) ∧
      (line + count ≤ e.lines.length →
        x.lines = Lines.orBlank (e.lines.take line ++ e.lines.drop (line + count))) := by
  intro x line missing
  have hx : x.view.Depleted e.config e.lines line count := by
    let c : Command := { deleteLine with count }
    have hkeys : x = e.dispatch c := by
      simp only [x, typeKeys, he.enabled, if_true]
      exact foldl_typeKey_of_spells he.phase (spells_deleteLine hfree hcount hmax)
    have hline : line < e.lines.length := he.wellFormed.2.2.1
    have hprepare : (e.prepare c).view.Depleted e.config e.lines line 0 := by
      rw [view_prepare]
      refine ⟨he.wellFormed, (Lines.afterDeletions_zero hline).symm, ?_, rfl, he.phase⟩
      show line = min line (e.lines.length - 1)
      omega
    have hop : (e.prepare c).config.operator? deleteLine.operator = some Operator.delete := by
      rw [config_prepare, Config.operator?, deleteLine, hfree]
      rfl
    have hruns := depleted_iterate hfree hline hprepare
    have hnormal (k : Nat) : ((once deleteLine)^[k] (e.prepare c)).mode = .normal :=
      congrArg Phase.mode (hruns k).phase
    rw [hkeys, view_dispatch, run_with_count hop rfl hcount]
    · exact hruns count
    · intro k _ _
      rw [hnormal, ← hnormal 0]
      rfl
    · intro k _
      obtain ⟨z, hz, -⟩ := exists_attempt_deleteLine hfree hline (hruns k)
      rw [hz]
  refine ⟨hx.lines, fun hle => ?_⟩
  have hmissing : line - (line + count - e.lines.length) = line := by omega
  have hlines : x.lines = e.lines.afterDeletions line count := hx.lines
  rw [hlines, Lines.afterDeletions, hmissing]

/-- The last two of three lines are to go, and the first goes too. -/
theorem typeKeys_counted_lines_short :
    let e := (Session.start ['a', '\n', 'b', '\n', 'c'] 5 {} {} (.memory none) none).typeKeys ['j']
    (e.typeKeys ['3', 'd', 'd']).lines = [[]] ∧ (e.typeKeys ['2', 'd', 'd']).lines = [['a']] := by
  intro e
  have hwf : e.buffer.WellFormed := wellFormed_typeKeys (Session.wellFormed_start ..) _
  have he : e.Waiting := ⟨hwf.document, by decide +kernel, by decide +kernel⟩
  have hfree : e.config.hostCommands? 'd' = none := by decide +kernel
  have hlines : e.lines = [['a'], ['b'], ['c']] := by decide +kernel
  have hline : e.buffer.cursor.line = 1 := by decide +kernel
  clear_value e
  obtain ⟨hthree, -⟩ := typeKeys_counted_lines he hfree (show 1 ≤ 3 by decide) (by decide)
  obtain ⟨-, htwo⟩ := typeKeys_counted_lines he hfree (show 1 ≤ 2 by decide) (by decide)
  rw [hline, hlines] at hthree htwo
  exact ⟨hthree, htwo (by decide)⟩

/-- At the last line there is one line to delete, but a count of two takes the one above too. -/
theorem not_typeKeys_counted_below :
    let e := (Session.start ['a', '\n', 'b', '\n', 'c'] 5 {} {} (.memory none) none).typeKeys
      ['j', 'j']
    e.Waiting ∧ e.config.hostCommands? 'd' = none ∧ e.buffer.cursor.line = 2 ∧
      e.lines = [['a'], ['b'], ['c']] ∧
      (e.typeKeys ['2', 'd', 'd']).lines = [['a']] ∧
      (e.typeKeys ['2', 'd', 'd']).lines ≠
        Lines.orBlank (e.lines.take 2 ++ e.lines.drop (2 + 2)) := by
  intro e
  have hwf : e.buffer.WellFormed := wellFormed_typeKeys (Session.wellFormed_start ..) _
  exact ⟨⟨hwf.document, by decide +kernel, by decide +kernel⟩, by decide +kernel, by decide +kernel,
    by decide +kernel, by decide +kernel, by decide +kernel⟩

end Editor

end ModalEditor
