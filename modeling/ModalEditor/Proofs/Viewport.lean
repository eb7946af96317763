import Mathlib.Data.Nat.Dist
import ModalEditor.Proofs.Browsing
import ModalEditor.Screen.Frame

/-!
# The cursor on view

A buffer shows as many lines as its view is high, from `scrollTop` on (`Buffer.Shows`).  Edits move
the cursor and shorten the text, and leave the view where it is, so the cursor line can be anywhere
around the view.

Drawing looks for the cursor line before the view and after it, and moves the first line on view no
further than needed (`Buffer.Follows`).  It finds the cursor line if that is before the view, or if
the number of the line after the view is a size (`Buffer.follows_revealCursor`).  A number that
reaches `UInt64.size` wraps around to a line before the view; the cursor line is then taken for one
after the view, and the view moves past it (`Buffer.scrollTop_revealCursor_of_wraps`).

The keys that scroll choose a view that shows the cursor line (`Editor.shows_typeKeys_scroll`), and
drawing leaves such a view alone.
-/

namespace ModalEditor

namespace Buffer

variable {b : Buffer} {n height : Nat}

/-- Line `n` is on view. -/
def Shows (b : Buffer) (n : Nat) : Prop :=
  b.scrollTop ≤ n ∧ n < b.scrollTop + max b.viewportHeight 1

/-- The view has followed the cursor, from where line `top` was the first one on view. -/
structure Follows (b : Buffer) (top : Nat) : Prop where
  shows : b.Shows b.cursor.line
  /-- The first line on view is a line of the text. -/
  top_le : b.scrollTop ≤ b.lines.lastLine
  /-- No other view of that height shows the cursor line and is as near to the one before. -/
  nearest : ∀ t, t ≤ b.cursor.line → b.cursor.line < t + max b.viewportHeight 1 →
    t ≠ b.scrollTop → Nat.dist b.scrollTop top < Nat.dist t top

theorem line_cursor_le_lastLine (h : b.document.WellFormed) :
    b.cursor.line ≤ b.lines.lastLine := Nat.le_sub_one_of_lt h.2.2.1

/-! ### Drawing -/

/-- Revealing a line moves the first line on view into the stretch of the lines from which that
line is shown. -/
theorem topRevealing_eq (h : n < b.scrollTop ∨ b.scrollTop + max b.viewportHeight 1 < UInt64.size) :
    b.topRevealing n = max (n + 1 - max b.viewportHeight 1) (min b.scrollTop n) := by
  rw [topRevealing]
  by_cases habove : n < b.scrollTop
  · rw [if_pos habove]
    omega
  · rw [if_neg habove, Size.add_of_lt (h.resolve_left habove)]
    split
    · rw [Size.sub_of_le (by omega)]
      omega
    · omega

/-- A view whose end wraps around has its end before its start, so that a line on view is taken for
one after the view. -/
theorem topRevealing_of_wraps (htop : b.scrollTop < UInt64.size)
    (hheight : max b.viewportHeight 1 < UInt64.size) (hle : b.scrollTop ≤ n)
    (hwraps : UInt64.size ≤ b.scrollTop + max b.viewportHeight 1) :
    b.topRevealing n = Size.sub (n + 1) (max b.viewportHeight 1) := by
  have hend : Size.add b.scrollTop (max b.viewportHeight 1) ≤ n :=
    Nat.le_trans (Nat.le_of_lt (Size.add_lt_of_size_le htop hheight hwraps)) hle
  rw [topRevealing, if_neg (Nat.not_lt.2 hle), if_pos hend]

theorem follows_revealCursor (hwf : b.document.WellFormed)
    (h : b.cursor.line < b.scrollTop ∨ b.scrollTop + max b.viewportHeight 1 < UInt64.size) :
    b.revealCursor.Follows b.scrollTop := by
  have htop : b.revealCursor.scrollTop =
      max (b.cursor.line + 1 - max b.viewportHeight 1) (min b.scrollTop b.cursor.line) :=
    topRevealing_eq h
  have hshows : b.revealCursor.Shows b.cursor.line := by
    rw [Shows, htop, show b.revealCursor.viewportHeight = b.viewportHeight from rfl]
    omega
  refine ⟨hshows, Nat.le_trans hshows.1 (line_cursor_le_lastLine hwf), fun t hle hlt hne => ?_⟩
  have hle : t ≤ b.cursor.line := hle
  have hlt : b.cursor.line < t + max b.viewportHeight 1 := hlt
  rw [htop] at hne ⊢
  rw [Nat.dist, Nat.dist]
  omega

/-- A view whose end wraps around moves past the cursor line that it shows. -/
theorem scrollTop_revealCursor_of_wraps (hline : 2 * b.cursor.line + 1 < UInt64.size)
    (hheight : max b.viewportHeight 1 < UInt64.size) (hle : b.scrollTop ≤ b.cursor.line)
    (hwraps : UInt64.size ≤ b.scrollTop + max b.viewportHeight 1) :
    b.revealCursor.scrollTop = b.cursor.line + 1 + (UInt64.size - max b.viewportHeight 1) := by
  have htop : b.revealCursor.scrollTop = Size.sub (b.cursor.line + 1) (max b.viewportHeight 1) :=
    topRevealing_of_wraps (by omega) hheight hle hwraps
  rw [htop, Size.sub_of_lt (by omega)]
  omega

theorem topRevealing_of_shows (h : b.Shows n)
    (hend : b.scrollTop + max b.viewportHeight 1 < UInt64.size) :
    b.topRevealing n = b.scrollTop := by
  rw [Shows] at h
  rw [topRevealing_eq (.inr hend)]
  omega

/-- A view that shows the cursor line stays when it is drawn in the same height. -/
theorem scrollTop_setViewportHeight_of_shows (h : b.Shows b.cursor.line)
    (hend : b.scrollTop + max b.viewportHeight 1 < UInt64.size)
    (hheight : max height 1 = max b.viewportHeight 1) :
    (b.setViewportHeight height).scrollTop = b.scrollTop := by
  let c : Buffer := { b with viewportHeight := max height 1 }
  have hc : max c.viewportHeight 1 = max b.viewportHeight 1 := by
    rw [← hheight]
    exact Nat.max_eq_left (Nat.le_max_right ..)
  have hshows : c.Shows b.cursor.line := by
    rw [Shows, hc]
    exact h
  exact topRevealing_of_shows hshows (by rwa [hc])

/-! ### Placing a line in the view -/

theorem shows_scrollLineTo (h : n ≤ b.lines.lastLine) (place : ViewPlace) :
    (b.scrollLineTo n place).Shows n := by
  have hline : min n b.lines.lastLine = n := Nat.min_eq_left h
  unfold Shows scrollLineTo
  dsimp only
  rw [hline]
  cases place with
  | center | top | bottom =>
    dsimp only
    omega

end Buffer

namespace Editor

variable {e : Editor} {replay : Editor → Editor} {d : Command} {op : Operator} {p : Plan}
variable {place : ViewPlace} {k c : Char}

/-! ### Scrolling by keys -/

theorem mode_scroll (e : Editor) (argument : Option Char) : (e.scroll argument).mode = e.mode := by
  rw [scroll]
  split <;> rfl

theorem config_scroll (e : Editor) (argument : Option Char) :
    (e.scroll argument).config = e.config := by
  rw [scroll]
  split <;> rfl

/-- Scrolling does not move the cursor, so scrolling again finds the cursor line in its place. -/
theorem scroll_scroll (e : Editor) (argument : Option Char) :
    (e.scroll argument).scroll argument = e.scroll argument := by
  cases h : argument.bind viewPlace? with
  | none => simp only [scroll, h]
  | some place =>
    simp only [scroll, h]
    rfl

theorem runPlan_scroll (h : p.operator.action = .scroll) (hkind : p.operator.kind = .movement) :
    runPlan replay p e = (e.scroll p.argument, none) := by
  have haction : Action.run replay p e = (e.scroll p.argument, none) := by
    unfold Action.run
    rw [h]
  rw [runPlan, haction]
  dsimp only
  rw [if_neg (by rw [hkind]; simp)]

/-- There is a plan for scrolling, which runs at least once. -/
theorem exists_plan_scroll (hop : e.config.operator? d.operator = some op)
    (h : op.action = .scroll) :
    ∃ n target, e.plan? d = some ⟨op, n + 1, target, d.argument⟩ := by
  obtain ⟨hkind, -, hrange⟩ := Config.operator?_kind hop
  rw [plan?, hop]
  dsimp only
  split
  · exact ⟨0, _, rfl⟩
  · split
    · next harity =>
      rw [h, hrange harity] at hkind
      cases hkind
    · exact ⟨max d.count 1 - 1, _, by rw [Nat.sub_add_cancel (Nat.le_max_right ..)]⟩

theorem exists_repeatPlan_scroll (hop : e.config.operator? d.operator = some op)
    (h : op.action = .scroll) (hp : e.plan? d = some p) (n : Nat) :
    ∃ q, (e.scroll d.argument).plan? d = some q ∧ repeatPlan replay d e.mode (n + 1) p e =
      repeatPlan replay d (e.scroll d.argument).mode n q (e.scroll d.argument) := by
  have hkind : op.kind = .movement := by
    rw [(Config.operator?_kind hop).1, h]
    rfl
  obtain ⟨k, target, hplan⟩ := exists_plan_scroll hop h
  obtain rfl : p = ⟨op, k + 1, target, d.argument⟩ := Option.some.inj (hp.symm.trans hplan)
  have hagain : (e.scroll d.argument).config.operator? d.operator = some op := by
    rwa [config_scroll]
  obtain ⟨k', target', hq⟩ := exists_plan_scroll hagain h
  refine ⟨_, hq, ?_⟩
  rw [repeatPlan, runPlan_scroll h hkind]
  dsimp only
  rw [if_pos (mode_scroll e _), hq, mode_scroll]

/-- However often it runs, scrolling is scrolling once. -/
theorem repeatPlan_scroll (hop : e.config.operator? d.operator = some op)
    (h : op.action = .scroll) (hp : e.plan? d = some p) (n : Nat) :
    repeatPlan replay d e.mode (n + 1) p e = e.scroll d.argument := by
  induction n generalizing e p with
  | zero =>
    obtain ⟨q, -, hfirst⟩ := exists_repeatPlan_scroll hop h hp 0
    exact hfirst
  | succ n ih =>
    obtain ⟨q, hq, hfirst⟩ := exists_repeatPlan_scroll hop h hp (n + 1)
    rw [hfirst, ih (by rwa [config_scroll]) hq, scroll_scroll]

theorem run_scroll (hop : e.config.operator? d.operator = some op) (h : op.action = .scroll) :
    e.run d = e.scroll d.argument := by
  obtain ⟨n, target, hp⟩ := exists_plan_scroll hop h
  rw [run, runWith, hp]
  exact repeatPlan_scroll hop h hp n

theorem exists_viewPlace? (h : c = 'z' ∨ c = 't' ∨ c = 'b') :
    ∃ place, viewPlace? c = some place := by
  rcases h with rfl | rfl | rfl
  · exact ⟨.center, rfl⟩
  · exact ⟨.top, rfl⟩
  · exact ⟨.bottom, rfl⟩

/-- A command that scrolls leaves the cursor line on view. -/
theorem shows_dispatch_scroll (hwf : e.buffer.document.WellFormed)
    (hop : e.config.operator? d.operator = some op) (h : op.action = .scroll)
    (hplace : d.argument.bind viewPlace? = some place) :
    let x := e.dispatch d
    x.buffer.document = e.buffer.document ∧ x.buffer.viewportHeight = e.buffer.viewportHeight ∧
      x.buffer.Shows x.buffer.cursor.line := by
  intro x
  have hcursor : e.buffer.clampedCursor = e.buffer.cursor := Lines.clamp_of_inRange hwf.2.2
  have hshows : (e.buffer.scrollLineTo e.buffer.clampedCursor.line place).Shows
      e.buffer.cursor.line := by
    rw [hcursor]
    exact Buffer.shows_scrollLineTo (Buffer.line_cursor_le_lastLine hwf) place
  have hrun : ((e.prepare d).run d).buffer =
      (e.buffer.scrollLineTo e.buffer.clampedCursor.line place).beginUndoGroup := by
    rw [run_scroll (by rwa [config_prepare]) h, scroll, hplace, prepare_eq]
    rfl
  rw [show x = _ from dispatch_eq e d]
  dsimp only
  generalize (e.prepare d).run d = y at hrun ⊢
  split
  · rw [hrun]
    exact ⟨rfl, rfl, hshows⟩
  · rw [mapBuffer, hrun]
    exact ⟨rfl, rfl, hshows⟩

/-- A key that completes a command dispatches it. -/
theorem exists_typeKeys_eq_dispatch (henabled : e.enabled = true)
    (hd : e.completes? k = some d) :
    ∃ phase, e.typeKeys [k] = { e with phase }.dispatch d := by
  obtain ⟨phase, -, htype⟩ := typeKey_eq (mode_ne_insert_of_completes? hd) k
  refine ⟨phase, ?_⟩
  rw [show e.typeKeys [k] = e.typeKey k from if_pos henabled, htype e rfl rfl, hd]
  rfl

theorem shows_typeKeys_scroll (hwf : e.buffer.document.WellFormed) (henabled : e.enabled = true)
    (hd : e.completes? k = some d) (hop : e.config.operator? d.operator = some op)
    (h : op.action = .scroll) (hplace : d.argument.bind viewPlace? = some place) :
    let x := e.typeKeys [k]
    x.buffer.document = e.buffer.document ∧ x.buffer.viewportHeight = e.buffer.viewportHeight ∧
      x.buffer.Shows x.buffer.cursor.line := by
  obtain ⟨phase, hx⟩ := exists_typeKeys_eq_dispatch henabled hd
  rw [hx]
  exact shows_dispatch_scroll (e := { e with phase }) hwf hop h hplace

end Editor

namespace Session

variable {s : Session}

end Session

end ModalEditor
