import ModalEditor.Proofs.PasteLines

/-!
# Operators on whole lines

The span of some whole lines takes one line break along, and which one depends on where the lines
are: erasing the span leaves the lines above and the lines below
(`Document.lines_erase_wholeLines`).  The register does not see that span, and changing lines does
not use it: both take the lines as they are numbered.

Each of the operators `d`, `c` and `y` fills the register with the lines (`View.Takes`) and leaves
lines and a phase of its own.  The keys come to the operators in two ways, over a line-wise
selection or doubled (`Editor.typeKeys_onLines`).
-/

namespace ModalEditor

namespace Lines

variable {ls : Lines} {first last : Nat} {p : Position}

/-- The lines, or a single empty line if there are none. -/
def orBlank : Lines → Lines
  | [] => [[]]
  | l :: ls => l :: ls

/-- What is left without lines `first` to `last`. -/
def without (ls : Lines) (first last : Nat) : Lines :=
  orBlank (ls.take first ++ ls.drop (last + 1))

theorem orBlank_of_ne_nil (h : ls ≠ []) : ls.orBlank = ls := by
  cases ls with
  | nil => exact absurd rfl h
  | cons => rfl

theorem without_ne_nil (ls : Lines) (first last : Nat) : ls.without first last ≠ [] := by
  rw [without, orBlank.eq_def]
  split <;> simp

/-- Lines that are there make a span without further adjustment. -/
theorem wholeLines_of_le (hle : first ≤ last) (h : last < ls.length) :
    ls.wholeLines first last =
      if last + 1 < ls.length then .between ⟨first, 0⟩ ⟨last + 1, 0⟩
      else if 0 < first then .between (ls.lineEnd (first - 1)) (ls.lineEnd last)
      else .between ⟨first, 0⟩ (ls.lineEnd last) := by
  have hlast : min last ls.lastLine = last := by
    rw [lastLine]
    omega
  simp only [wholeLines, hlast, Nat.min_eq_left hle]

theorem eraseBetween_self (h : ls.InRange p) : ls.eraseBetween p p = ls := by
  rw [eraseBetween, List.take_append_drop, List.append_assoc, List.singleton_append,
    ← drop_eq_line_cons h.1, List.take_append_drop]

/-- Erasing from the start of a line to the end of a line leaves an empty line. -/
theorem eraseBetween_lineEnd (ls : Lines) (first last : Nat) :
    ls.eraseBetween ⟨first, 0⟩ (ls.lineEnd last) =
      ls.take first ++ [] :: ls.drop (last + 1) := by
  simp [eraseBetween, lineEnd, lineLength]

theorem lineStart_le_lineEnd (ls : Lines) (hle : first ≤ last) :
    (⟨first, 0⟩ : Position) ≤ ls.lineEnd last := by
  rw [Position.le_iff]
  dsimp only [lineEnd]
  omega

theorem isEmpty_wholeLines_iff (hle : first ≤ last) (h : last < ls.length) :
    (ls.wholeLines first last).isEmpty = true ↔ ls = [[]] := by
  constructor
  · intro hempty
    by_contra hne
    rw [isEmpty_wholeLines hle h hne] at hempty
    cases hempty
  · rintro rfl
    obtain rfl : last = 0 := Nat.lt_one_iff.1 h
    obtain rfl : first = 0 := Nat.le_zero.1 hle
    rfl

end Lines

namespace Document

variable {d : Document} {p q : Position} {first last : Nat}

theorem lines_erase_between (hp : d.lines.InRange p) (hq : d.lines.InRange q) (hle : p ≤ q) :
    (d.erase (.between p q)).lines = d.lines.eraseBetween p q := by
  simp only [erase, Span.between_of_le hle, Lines.clamp_of_inRange hp, Lines.clamp_of_inRange hq]
  split
  · next h =>
    obtain rfl := Position.le_antisymm hle h
    rw [Lines.eraseBetween_self hp]
  · rfl

/-- Erasing whole lines leaves the lines above and the lines below. -/
theorem lines_erase_wholeLines (hle : first ≤ last) (h : last < d.lines.length) :
    (d.erase (d.lines.wholeLines first last)).lines = d.lines.without first last := by
  have hstart : d.lines.InRange ⟨first, 0⟩ := ⟨Nat.lt_of_le_of_lt hle h, Nat.zero_le _⟩
  have hend : d.lines.InRange (d.lines.lineEnd last) := ⟨h, Nat.le_refl _⟩
  rw [Lines.wholeLines_of_le hle h, Lines.without]
  split
  · next hbelow =>
    -- The line break after the lines goes with them.
    have hle' : (⟨first, 0⟩ : Position) ≤ ⟨last + 1, 0⟩ := .inl (Nat.lt_succ_of_le hle)
    rw [lines_erase_between hstart ⟨hbelow, Nat.zero_le _⟩ hle', Lines.orBlank_of_ne_nil]
    · rw [Lines.drop_eq_line_cons hbelow]
      simp [Lines.eraseBetween]
    · simp [hbelow]
  · next hbelow =>
    have hdrop : d.lines.drop (last + 1) = [] := List.drop_eq_nil_of_le (Nat.le_of_not_lt hbelow)
    split
    · next hfirst =>
      -- The line break before the lines goes with them.
      obtain ⟨n, rfl⟩ := Nat.exists_eq_succ_of_ne_zero (Nat.pos_iff_ne_zero.1 hfirst)
      have hn : n < d.lines.length := by omega
      have hle' : d.lines.lineEnd n ≤ d.lines.lineEnd last := .inl hle
      rw [Nat.succ_sub_one, lines_erase_between ⟨hn, Nat.le_refl _⟩ hend hle',
        Lines.orBlank_of_ne_nil]
      · rw [List.take_succ_eq_append_getElem hn, ← Lines.line_eq_getElem hn]
        simp [Lines.eraseBetween, Lines.lineEnd, Lines.lineLength, hdrop]
      · rw [hdrop, List.append_nil]
        exact List.ne_nil_of_length_pos (by rw [List.length_take]; omega)
    · next hfirst =>
      -- The lines are the whole text.
      obtain rfl : first = 0 := by omega
      rw [lines_erase_between hstart hend (d.lines.lineStart_le_lineEnd hle),
        Lines.eraseBetween_lineEnd, hdrop]
      rfl

/-- Erasing lines but for the line break at their end leaves an empty line. -/
theorem lines_erase_lineEnd (hle : first ≤ last) (h : last < d.lines.length) :
    (d.erase (.between ⟨first, 0⟩ (d.lines.lineEnd last))).lines =
      d.lines.take first ++ [] :: d.lines.drop (last + 1) := by
  rw [lines_erase_between ⟨Nat.lt_of_le_of_lt hle h, Nat.zero_le _⟩ ⟨h, Nat.le_refl _⟩
    (d.lines.lineStart_le_lineEnd hle), Lines.eraseBetween_lineEnd]

theorem erase_of_isEmpty {s : Span} (h : s.isEmpty = true) (d : Document) : d.erase s = d := by
  have hstop : s.stop = s.start := (beq_iff_eq.1 h).symm
  rw [erase, hstop, if_pos (Position.le_refl _)]

/-- An empty text has one place for the cursor. -/
theorem WellFormed.eq_of_blank (hw : d.WellFormed) (hblank : d.lines = [[]]) : d = {} := by
  have horigin {p : Position} (hp : d.lines.InRange p) : p = .origin := by
    rw [hblank] at hp
    obtain ⟨hline, hcolumn⟩ := hp
    have hline : p.line = 0 := Nat.lt_one_iff.1 hline
    rw [hline] at hcolumn
    exact Position.ext hline (Nat.le_zero.1 hcolumn)
  obtain ⟨ls, anchor, active⟩ := d
  obtain rfl : ls = [[]] := hblank
  obtain rfl : anchor = .origin := horigin hw.2.1
  obtain rfl : active = .origin := horigin hw.2.2
  rfl

end Document

namespace View

variable {w : View} {first last : Nat}

/-- Take lines `first` to `last` into the register.  From an empty text nothing is taken. -/
def takeLines (w : View) (first last : Nat) : View :=
  if w.document.lines = [[]] then w
  else w.store (.take (w.document.lines.block first last).text true)

/-- Delete lines `first` to `last`. -/
def deleteLines (w : View) (first last : Nat) : View :=
  { w.takeLines first last with
    document := (w.document.erase (w.document.lines.wholeLines first last)).select
      (.caret ⟨min first (w.document.lines.without first last).lastLine, 0⟩) }

/-- Put an empty line in the place of lines `first` to `last`, and insert there. -/
def changeLines (w : View) (first last : Nat) : View :=
  { w.takeLines first last with
    document := (w.document.erase
      (.between ⟨first, 0⟩ (w.document.lines.lineEnd last))).select (.caret ⟨first, 0⟩)
    phase := .insert .initial }

theorem document_takeLines (w : View) (first last : Nat) :
    (w.takeLines first last).document = w.document := by
  rw [takeLines]
  split <;> rfl

theorem phase_takeLines (w : View) (first last : Nat) :
    (w.takeLines first last).phase = w.phase := by
  rw [takeLines]
  split <;> rfl

theorem config_takeLines (w : View) (first last : Nat) :
    (w.takeLines first last).config = w.config := by
  rw [takeLines]
  split <;> rfl

theorem register_takeLines (w : View) (first last : Nat) :
    (w.takeLines first last).register = if w.document.lines = [[]] then w.register
      else some (.take (w.document.lines.block first last).text true) :=
  apply_ite View.register ..

theorem phase_deleteLines (w : View) (first last : Nat) :
    (w.deleteLines first last).phase = w.phase := phase_takeLines ..

theorem config_deleteLines (w : View) (first last : Nat) :
    (w.deleteLines first last).config = w.config := config_takeLines ..

theorem register_deleteLines (w : View) (first last : Nat) :
    (w.deleteLines first last).register = (w.takeLines first last).register := rfl

/-- An empty text has no lines to delete. -/
theorem deleteLines_of_blank (hw : w.document.WellFormed) (hblank : w.document.lines = [[]]) :
    w.deleteLines 0 0 = w := by
  have hdocument : (w.document.erase (w.document.lines.wholeLines 0 0)).select
      (.caret ⟨min 0 (w.document.lines.without 0 0).lastLine, 0⟩) = w.document := by
    rw [hw.eq_of_blank hblank]
    rfl
  rw [deleteLines, hdocument, takeLines, if_pos hblank]

theorem lines_deleteLines (hle : first ≤ last) (h : last < w.document.lines.length) :
    (w.deleteLines first last).document.lines = w.document.lines.without first last :=
  Document.lines_erase_wholeLines hle h

/-- The cursor is put at the start of the line that comes to stand in the place of the lines, or of
the last one. -/
theorem cursor_deleteLines (hle : first ≤ last) (h : last < w.document.lines.length) :
    (w.deleteLines first last).document.cursor =
      ⟨min first (w.deleteLines first last).document.lines.lastLine, 0⟩ := by
  have hlines := lines_deleteLines hle h
  have hpos := List.length_pos_of_ne_nil (w.document.lines.without_ne_nil first last)
  rw [hlines]
  refine Lines.clamp_of_inRange ⟨?_, Nat.zero_le _⟩
  rw [Document.lines_erase_wholeLines hle h]
  dsimp only [Selection.caret, Lines.lastLine]
  omega

/-- Leaving visual mode keeps the cursor in its place. -/
theorem document_leaveVisual_deleteLines (hle : first ≤ last)
    (h : last < w.document.lines.length) :
    (w.deleteLines first last).leaveVisual.document = (w.deleteLines first last).document := by
  let v : View :=
    { w.takeLines first last with
      document := w.document.erase (w.document.lines.wholeLines first last) }
  have hne : v.document.lines ≠ [] := by
    rw [Document.lines_erase_wholeLines hle h]
    exact w.document.lines.without_ne_nil first last
  exact document_leaveVisual_select hne _

theorem lines_changeLines (hle : first ≤ last) (h : last < w.document.lines.length) :
    (w.changeLines first last).document.lines =
      w.document.lines.take first ++ [] :: w.document.lines.drop (last + 1) :=
  Document.lines_erase_lineEnd hle h

theorem cursor_changeLines (hle : first ≤ last) (h : last < w.document.lines.length) :
    (w.changeLines first last).document.cursor = ⟨first, 0⟩ := by
  refine Lines.clamp_of_inRange ⟨?_, Nat.zero_le _⟩
  rw [Document.lines_erase_lineEnd hle h, List.length_append, List.length_take, List.length_cons]
  dsimp only [Selection.caret]
  omega

end View

namespace Editor

variable {e : Editor} {keys : List Char} {op : Char} {first last : Nat}

/-! ### The operators -/

theorem view_yank_ofLines (hle : first ≤ last) (hlast : last < e.lines.length) :
    (e.yank (.ofLines e.lines first last)).view = e.view.takeLines first last := by
  rw [View.takeLines]
  split
  · next hblank =>
    exact congrArg view (if_pos ((Lines.isEmpty_wholeLines_iff hle hlast).2 hblank))
  · next hblank =>
    rw [view_yank_lines rfl (Lines.isEmpty_wholeLines hle hlast hblank), clipping_ofLines hlast]
    rfl

theorem view_delete_ofLines (hw : e.buffer.document.WellFormed) (hle : first ≤ last)
    (hlast : last < e.lines.length) :
    (e.delete (.ofLines e.lines first last)).view = e.view.deleteLines first last := by
  by_cases hblank : e.lines = [[]]
  · have hdelete : e.delete (.ofLines e.lines first last) = e :=
      if_pos ((Lines.isEmpty_wholeLines_iff hle hlast).2 hblank)
    rw [hblank] at hlast
    obtain rfl : last = 0 := Nat.lt_one_iff.1 hlast
    obtain rfl : first = 0 := Nat.le_zero.1 hle
    rw [hdelete, View.deleteLines_of_blank hw hblank]
  · let s := e.lines.wholeLines first last
    let x := (e.store (e.clipping (.ofLines e.lines first last))).edit [.erase s]
    have htake : e.view.takeLines first last =
        e.view.store (.take (e.lines.block first last).text true) := if_neg hblank
    have hview : x.view =
        { e.view.takeLines first last with document := e.view.document.erase s } := by
      simp only [x, view_edit, view_store, clipping_ofLines hlast, htake]
      rfl
    have hlines : x.lines = e.lines.without first last :=
      (congrArg (·.document.lines) hview).trans (Document.lines_erase_wholeLines hle hlast)
    have hdelete : e.delete (.ofLines e.lines first last) =
        x.setCursor ⟨min first x.lines.lastLine, 0⟩ :=
      if_neg (by simp [Target.ofLines, Lines.isEmpty_wholeLines hle hlast hblank])
    rw [hdelete, view_setCursor, hview, hlines]
    rfl

theorem view_change_ofLines (hle : first ≤ last) (hlast : last < e.lines.length) :
    (e.change (.ofLines e.lines first last)).view = e.view.changeLines first last := by
  let t := Target.ofLines e.lines first last
  let s := Span.between ⟨first, 0⟩ (e.lines.lineEnd last)
  let x := if t.span.isEmpty then e else e.store (e.clipping t)
  let y := if s.isEmpty then x else x.edit [.erase s]
  have hx : x.view = e.view.takeLines first last := by
    have hempty : t.span.isEmpty = true ↔ e.lines = [[]] := Lines.isEmpty_wholeLines_iff hle hlast
    rw [View.takeLines]
    simp only [x, hempty]
    split
    · next hblank => exact (if_pos hblank).symm
    · next hblank =>
      rw [view_store, clipping_ofLines hlast]
      exact (if_neg hblank).symm
  have hy : y.view = { x.view with document := e.view.document.erase s } := by
    rw [← View.document_takeLines e.view first last, ← hx]
    by_cases hs : s.isEmpty = true
    · simp only [y, if_pos hs, Document.erase_of_isEmpty hs]
    · simp only [y, if_neg hs, view_edit]
      rfl
  have hstart : s.start = ⟨first, 0⟩ := by
    simp only [s, Span.between_of_le (e.lines.lineStart_le_lineEnd hle)]
  show ((y.resumeNormal.setCursor s.start).enterInsert).view = _
  rw [view_enterInsert, view_resumeNormal_setCursor, hy, hx, hstart]
  rfl

/-! ### The keys -/

/-- The keys that delete lines. -/
theorem OnLines.view_delete (h : e.OnLines 'd' keys first last) (hw : e.buffer.document.WellFormed)
    (hfree : e.config.hostCommands? 'd' = none) :
    (keys.foldl typeKey e).view = (e.view.deleteLines first last).leaveVisual := by
  obtain ⟨hle, hlast⟩ := h.range hw
  have hop : e.config.operator? 'd' = some ⟨.range, .edit, .delete⟩ := by
    rw [Config.operator?, hfree]
    rfl
  obtain ⟨x, hx, hview⟩ := h.exists_view (g := fun t x => x.delete t) hop fun _ _ _ _ _ => rfl
  have hlines : x.lines = e.lines := congrArg (·.document.lines) hx
  have hdocument : x.buffer.document = e.buffer.document := congrArg View.document hx
  rw [hview, ← hlines, view_delete_ofLines (hdocument ▸ hw) hle (hlines ▸ hlast), hx]

/-- The keys that change lines. -/
theorem OnLines.view_change (h : e.OnLines 'c' keys first last) (hw : e.buffer.document.WellFormed)
    (hfree : e.config.hostCommands? 'c' = none) :
    (keys.foldl typeKey e).view = e.view.changeLines first last := by
  obtain ⟨hle, hlast⟩ := h.range hw
  have hop : e.config.operator? 'c' = some ⟨.range, .edit, .change⟩ := by
    rw [Config.operator?, hfree]
    rfl
  obtain ⟨x, hx, hview⟩ := h.exists_view (g := fun t x => x.change t) hop fun _ _ _ _ _ => rfl
  have hlines : x.lines = e.lines := congrArg (·.document.lines) hx
  rw [hview, ← hlines, view_change_ofLines hle (hlines ▸ hlast), hx]
  exact View.leaveVisual_of_ne (show Mode.insert ≠ .visual by decide)

/-- The keys that copy lines. -/
theorem OnLines.view_yank (h : e.OnLines 'y' keys first last) (hw : e.buffer.document.WellFormed)
    (hfree : e.config.hostCommands? 'y' = none) :
    (keys.foldl typeKey e).view = (e.view.takeLines first last).leaveVisual := by
  obtain ⟨hle, hlast⟩ := h.range hw
  have hop : e.config.operator? 'y' = some ⟨.range, .edit, .yank⟩ := by
    rw [Config.operator?, hfree]
    rfl
  obtain ⟨x, hx, hview⟩ := h.exists_view (g := fun t x => x.yank t) hop fun _ _ _ _ _ => rfl
  have hlines : x.lines = e.lines := congrArg (·.document.lines) hx
  rw [hview, ← hlines, view_yank_ofLines hle (hlines ▸ hlast), hx]

/-- **Operators on whole lines act on exactly these lines.**  Over a line-wise selection, or
doubled, `d` leaves the lines above and the lines below, `c` leaves an empty line between them, and
`y` leaves all as it is.  The text of the lines is in the register, unless the text was empty. -/
theorem typeKeys_onLines (hw : e.buffer.document.WellFormed) (henabled : e.enabled = true)
    (hop : op ∈ ['d', 'c', 'y']) (hfree : e.config.hostCommands? op = none)
    (hkeys : e.OnLines op keys first last) :
    let x := e.typeKeys keys
    let above := e.lines.take first
    let below := e.lines.drop (last + 1)
    first ≤ last ∧ last < e.lines.length ∧
      (op = 'd' → x.lines = Lines.orBlank (above ++ below) ∧
        x.buffer.cursor = ⟨min first x.lines.lastLine, 0⟩ ∧ x.mode = .normal) ∧
      (op = 'c' → x.lines = above ++ [] :: below ∧
        x.buffer.cursor = ⟨first, 0⟩ ∧ x.mode = .insert) ∧
      (op = 'y' → x.lines = e.lines ∧ x.mode = .normal) ∧
      x.register =
        if e.lines = [[]] then e.register
        else some (.take (e.lines.block first last).text true) := by
  intro x above below
  obtain ⟨hle, hlast⟩ := hkeys.range hw
  have hx : x = keys.foldl typeKey e := by simp only [x, typeKeys, henabled, if_true]
  have hinsert : e.phase.mode ≠ .insert := by
    rcases hkeys.phase with h | h
    · rw [h]
      decide
    · rw [h]
      decide
  have hregister : (e.view.takeLines first last).register = if e.lines = [[]] then e.register
      else some (.take (e.lines.block first last).text true) := View.register_takeLines ..
  refine ⟨hle, hlast, ?_⟩
  simp only [List.mem_cons, List.not_mem_nil, or_false] at hop
  rcases hop with rfl | rfl | rfl
  · have hview : x.view = (e.view.deleteLines first last).leaveVisual := by
      rw [hx, hkeys.view_delete hw hfree]
    have hdocument : x.buffer.document = (e.view.deleteLines first last).document :=
      (congrArg View.document hview).trans (View.document_leaveVisual_deleteLines hle hlast)
    have hlines : x.lines = (e.view.deleteLines first last).document.lines :=
      congrArg Document.lines hdocument
    refine ⟨fun _ => ⟨hlines.trans (View.lines_deleteLines hle hlast), ?_, ?_⟩,
      fun h => absurd h (by decide), fun h => absurd h (by decide), ?_⟩
    · rw [hlines]
      exact (congrArg Document.cursor hdocument).trans (View.cursor_deleteLines hle hlast)
    · refine (congrArg (·.phase.mode) hview).trans (View.mode_leaveVisual ?_)
      rw [View.phase_deleteLines]
      exact hinsert
    · rw [← hregister, ← View.register_deleteLines, ← View.register_leaveVisual]
      exact congrArg View.register hview
  · have hview : x.view = e.view.changeLines first last := by
      rw [hx, hkeys.view_change hw hfree]
    refine ⟨fun h => absurd h (by decide), fun _ => ⟨?_, ?_, ?_⟩, fun h => absurd h (by decide), ?_⟩
    · exact (congrArg (·.document.lines) hview).trans (View.lines_changeLines hle hlast)
    · exact (congrArg (·.document.cursor) hview).trans (View.cursor_changeLines hle hlast)
    · exact congrArg (·.phase.mode) hview
    · rw [← hregister]
      exact congrArg View.register hview
  · have hview : x.view = (e.view.takeLines first last).leaveVisual := by
      rw [hx, hkeys.view_yank hw hfree]
    refine ⟨fun h => absurd h (by decide), fun h => absurd h (by decide), fun _ => ⟨?_, ?_⟩, ?_⟩
    · refine (congrArg (·.document.lines) hview).trans ?_
      rw [View.lines_leaveVisual, View.document_takeLines]
      rfl
    · refine (congrArg (·.phase.mode) hview).trans (View.mode_leaveVisual ?_)
      rw [View.phase_takeLines]
      exact hinsert
    · rw [← hregister, ← View.register_leaveVisual]
      exact congrArg View.register hview

/-- The last two of three lines, selected upwards and deleted: the line break before them goes too,
and the cursor comes up to the line that is left. -/
theorem typeKeys_onLines_upward :
    let e := (Session.start ['a', '\n', 'b', '\n', 'c'] 5 {} {} (.memory none) none).typeKeys
      ['j', 'j', 'V', 'k']
    let x := e.typeKeys ['d']
    x.lines = [['a']] ∧ x.buffer.cursor = ⟨0, 0⟩ ∧ x.register = some ⟨['b', '\n', 'c'], true⟩ := by
  intro e x
  have hw : e.buffer.WellFormed := wellFormed_typeKeys (Session.wellFormed_start ..) _
  have henabled : e.enabled = true := by decide +kernel
  have hphase : e.phase = .visual ⟨2, 0⟩ true .initial := by decide +kernel
  have hlines : e.lines = [['a'], ['b'], ['c']] := by decide +kernel
  have hstart : e.buffer.selection.span.start.line = 1 := by decide +kernel
  have hstop : e.buffer.selection.span.stop.line = 2 := by decide +kernel
  have hd : e.config.hostCommands? 'd' = none := by decide +kernel
  clear_value e
  have hkeys : e.OnLines 'd' ['d'] _ _ := .selected hphase
  rw [hstart, hstop] at hkeys
  obtain ⟨-, -, hdelete, -, -, hregister⟩ :=
    typeKeys_onLines hw.document henabled (by decide) hd hkeys
  obtain ⟨hx, hcursor, -⟩ := hdelete rfl
  have hleft : x.lines = [['a']] := by
    rw [hlines] at hx
    exact hx
  refine ⟨hleft, ?_, ?_⟩
  · rw [hleft] at hcursor
    exact hcursor
  · rw [hlines] at hregister
    exact hregister

end Editor

end ModalEditor
