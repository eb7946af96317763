import ModalEditor.Proofs.Loop

/-!
# What commands depend on

Commands look at an editor from outside: at the text with its selection, the view of it, the
clipboard and the register, the phase and the settings, but not at the history, the mark of unsaved
changes, the remembered commands or the message.  `Editor.outward` forgets what they do not look at,
and editors that are outwardly the same are so after any action (`Editor.outward_action`).

Host commands do look at the history; there it is the grouping that they do not depend on
(`Editor.runPlan_bare`).
-/

namespace ModalEditor

namespace Editor

variable {x y : Editor} {p : Plan}

/-- The editor with another history and another mark of unsaved changes, other remembered commands
and another message. -/
def amend (e : Editor) (history : History Document) (dirty : Bool) (slots : RepeatSlots)
    (message : Option Message) : Editor :=
  { e with buffer := { e.buffer with history, dirty }, slots, message }

/-- What commands look at; all else is forgotten. -/
def outward (e : Editor) : Editor := e.amend { limit := 0 } false {} none

/-- Outwardly the same editors are the same but for what commands do not look at. -/
theorem exists_amend (h : x.outward = y.outward) :
    ∃ history dirty slots message, y = x.amend history dirty slots message := by
  refine ⟨y.buffer.history, y.buffer.dirty, y.slots, y.message, ?_⟩
  have hback (e : Editor) :
      e = e.outward.amend e.buffer.history e.buffer.dirty e.slots e.message := rfl
  rw [hback y, ← h]
  rfl

theorem outward_ite {P : Prop} [Decidable P] {x' y' : Editor} (h : P → x.outward = y.outward)
    (h' : ¬P → x'.outward = y'.outward) :
    (if P then x else x').outward = (if P then y else y').outward := by
  by_cases hp : P
  · rw [if_pos hp, if_pos hp, h hp]
  · rw [if_neg hp, if_neg hp, h' hp]

theorem lines_of_outward (h : x.outward = y.outward) : x.lines = y.lines :=
  congrArg (·.buffer.document.lines) h

theorem mode_of_outward (h : x.outward = y.outward) : x.mode = y.mode :=
  congrArg (·.phase.mode) h

/-! ### Calls and changes of mode -/

theorem outward_edit (h : x.outward = y.outward) (es : List Edit) :
    (x.edit es).outward = (y.edit es).outward := by
  obtain ⟨history, dirty, slots, message, rfl⟩ := exists_amend h
  cases es <;> rfl

theorem outward_setCursor (h : x.outward = y.outward) (q : Position) :
    (x.setCursor q).outward = (y.setCursor q).outward := by
  obtain ⟨history, dirty, slots, message, rfl⟩ := exists_amend h
  rfl

theorem outward_enterInsert (h : x.outward = y.outward) :
    x.enterInsert.outward = y.enterInsert.outward := by
  obtain ⟨history, dirty, slots, message, rfl⟩ := exists_amend h
  rfl

/-- Revealing a line has nothing to do with the history. -/
theorem outward_reveal (h : x.outward = y.outward) (n : Nat) :
    (x.mapBuffer fun b => b.revealLine n).outward =
      (y.mapBuffer fun b => b.revealLine n).outward := by
  obtain ⟨history, dirty, slots, message, rfl⟩ := exists_amend h
  rfl

theorem outward_moveTo (h : x.outward = y.outward) (q : Position) :
    (x.moveTo q).outward = (y.moveTo q).outward := by
  obtain ⟨history, dirty, slots, message, rfl⟩ := exists_amend h
  let s := x.selectionAt (x.lines.clamp q)
  have hselect : (x.mapBuffer fun b => b.select s).outward =
      ((x.amend history dirty slots message).mapBuffer fun b => b.select s).outward := rfl
  exact outward_reveal hselect (x.buffer.select s).cursor.line

theorem outward_resumeNormal (h : x.outward = y.outward) :
    x.resumeNormal.outward = y.resumeNormal.outward := by
  obtain ⟨history, dirty, slots, message, rfl⟩ := exists_amend h
  unfold resumeNormal
  dsimp only [amend]
  split <;> rfl

theorem outward_enterVisual (h : x.outward = y.outward) (lineWise : Bool) :
    (x.enterVisual lineWise).outward = (y.enterVisual lineWise).outward := by
  obtain ⟨history, dirty, slots, message, rfl⟩ := exists_amend h
  let anchor := x.phase.anchor?.getD
    (if lineWise then ⟨x.buffer.clampedCursor.line, 0⟩ else x.buffer.clampedCursor)
  let enter (e : Editor) : Editor := { e.mapBuffer fun b => { b with cursorStyle := .block } with
    phase := .visual anchor lineWise .initial }
  have henter : (enter x).outward = (enter (x.amend history dirty slots message)).outward := rfl
  exact outward_moveTo henter x.buffer.clampedCursor

theorem outward_store (h : x.outward = y.outward) (c : Clipping) :
    (x.store c).outward = (y.store c).outward := by
  have hfill {x y : Editor} (h : x.outward = y.outward) :
      { x with register := some c }.outward = { y with register := some c }.outward := by
    obtain ⟨history, dirty, slots, message, rfl⟩ := exists_amend h
    rfl
  have hwrite {x y : Editor} (h : x.outward = y.outward) :
      (x.mapBuffer fun b => { b with clipboard := b.clipboard.write c.encode }).outward =
        (y.mapBuffer fun b => { b with clipboard := b.clipboard.write c.encode }).outward := by
    obtain ⟨history, dirty, slots, message, rfl⟩ := exists_amend h
    rfl
  have hsame := hwrite h
  obtain ⟨history, dirty, slots, message, rfl⟩ := exists_amend h
  exact hfill (outward_ite (P := x.config.syncRegister) (fun _ => hsame) fun _ => h)

/-! ### Actions -/

theorem outward_move (h : x.outward = y.outward) (m : Motion) :
    (x.move m).outward = (y.move m).outward := by
  obtain ⟨history, dirty, slots, message, rfl⟩ := exists_amend h
  exact outward_moveTo h (m.target x.lines x.separators x.buffer.clampedCursor)

theorem outward_search (h : x.outward = y.outward) (s : Search) (argument : Option Char) :
    (x.search s argument).outward = (y.search s argument).outward := by
  obtain ⟨history, dirty, slots, message, rfl⟩ := exists_amend h
  cases argument with
  | none => rfl
  | some k => exact outward_moveTo h (s.target x.lines x.buffer.clampedCursor k)

theorem outward_scroll (h : x.outward = y.outward) (argument : Option Char) :
    (x.scroll argument).outward = (y.scroll argument).outward := by
  obtain ⟨history, dirty, slots, message, rfl⟩ := exists_amend h
  unfold scroll
  split <;> rfl

theorem outward_resumeAndMove (h : x.outward = y.outward) (m : Motion) :
    (x.resumeNormal.move m).enterInsert.outward = (y.resumeNormal.move m).enterInsert.outward :=
  outward_enterInsert (outward_move (outward_resumeNormal h) m)

theorem outward_openBelow (h : x.outward = y.outward) :
    x.openBelow.outward = y.openBelow.outward := by
  have hresume := outward_resumeNormal h
  obtain ⟨history, dirty, slots, message, hy⟩ := exists_amend hresume
  unfold openBelow
  rw [hy]
  exact outward_enterInsert (outward_setCursor (outward_edit rfl _) _)

theorem outward_openAbove (h : x.outward = y.outward) :
    x.openAbove.outward = y.openAbove.outward := by
  have hresume := outward_resumeNormal h
  obtain ⟨history, dirty, slots, message, hy⟩ := exists_amend hresume
  unfold openAbove
  rw [hy]
  exact outward_enterInsert (outward_setCursor (outward_edit rfl _) _)

theorem outward_toggleVisual (h : x.outward = y.outward) (lineWise : Bool) :
    (x.toggleVisual lineWise).outward = (y.toggleVisual lineWise).outward := by
  have hvisual := outward_enterVisual h lineWise
  have hresume := outward_resumeNormal h
  obtain ⟨history, dirty, slots, message, rfl⟩ := exists_amend h
  exact outward_ite (fun _ => hresume) fun _ => hvisual

theorem outward_deleteChar (h : x.outward = y.outward) :
    x.deleteChar.outward = y.deleteChar.outward := by
  obtain ⟨history, dirty, slots, message, rfl⟩ := exists_amend h
  have hsame : (x.amend history dirty slots message).cursorChar? = x.cursorChar? := rfl
  unfold deleteChar
  rw [hsame]
  split
  · rfl
  · exact outward_setCursor (outward_edit (outward_store h _) _) _

theorem outward_replaceChar (h : x.outward = y.outward) (argument : Option Char) :
    (x.replaceChar argument).outward = (y.replaceChar argument).outward := by
  obtain ⟨history, dirty, slots, message, rfl⟩ := exists_amend h
  have hsame : (x.amend history dirty slots message).cursorChar? = x.cursorChar? := rfl
  unfold replaceChar
  rw [hsame]
  split
  · exact outward_setCursor (outward_edit rfl _) _
  · rfl

theorem outward_paste (h : x.outward = y.outward) (after : Bool) :
    (x.paste after).outward = (y.paste after).outward := by
  obtain ⟨history, dirty, slots, message, rfl⟩ := exists_amend h
  have hsame : (x.amend history dirty slots message).pasteContent = x.pasteContent := rfl
  unfold paste
  rw [hsame]
  split
  · rfl
  · exact outward_ite
      (fun _ => outward_ite (fun _ => outward_setCursor (outward_edit rfl _) _)
        fun _ => outward_setCursor (outward_edit rfl _) _)
      fun _ => outward_setCursor (outward_edit rfl _) _

theorem outward_delete (h : x.outward = y.outward) (t : Target) :
    (x.delete t).outward = (y.delete t).outward := by
  obtain ⟨history, dirty, slots, message, rfl⟩ := exists_amend h
  refine outward_ite (fun _ => rfl) fun _ => ?_
  have hedit := outward_edit (outward_store h (x.clipping t)) [.erase t.span]
  dsimp only
  -- Where the cursor goes depends on the lines that are left.
  rw [lines_of_outward hedit]
  exact outward_setCursor hedit _

theorem outward_yank (h : x.outward = y.outward) (t : Target) :
    (x.yank t).outward = (y.yank t).outward := by
  obtain ⟨history, dirty, slots, message, rfl⟩ := exists_amend h
  refine outward_ite (fun _ => rfl) fun _ => ?_
  have hstore := outward_store h (x.clipping t)
  dsimp only
  rw [mode_of_outward hstore]
  exact outward_ite (fun _ => outward_setCursor hstore _) fun _ => hstore

theorem outward_change (h : x.outward = y.outward) (t : Target) :
    (x.change t).outward = (y.change t).outward := by
  obtain ⟨history, dirty, slots, message, rfl⟩ := exists_amend h
  have hstore := outward_ite (P := t.span.isEmpty) (fun _ => h) fun _ =>
    outward_store h (x.clipping t)
  exact outward_enterInsert (outward_setCursor (outward_resumeNormal
    (outward_ite (fun _ => hstore) fun _ => outward_edit hstore _)) _)

theorem outward_landOnText (h : x.outward = y.outward) (n : Nat) :
    (x.landOnText n).outward = (y.landOnText n).outward := by
  obtain ⟨history, dirty, slots, message, rfl⟩ := exists_amend h
  exact outward_ite (fun _ => outward_setCursor h _) fun _ => h

theorem outward_indent (h : x.outward = y.outward) (t : Target) :
    (x.indent t).outward = (y.indent t).outward := by
  obtain ⟨history, dirty, slots, message, rfl⟩ := exists_amend h
  exact outward_landOnText (outward_edit h _) _

theorem outward_dedent (h : x.outward = y.outward) (t : Target) :
    (x.dedent t).outward = (y.dedent t).outward := by
  obtain ⟨history, dirty, slots, message, rfl⟩ := exists_amend h
  exact outward_landOnText (outward_edit h _) _

/-- **Actions keep outwardly the same editors so**, but for host commands and repetitions; and they
do not fail. -/
theorem outward_action (replay : Editor → Editor) (h : x.outward = y.outward)
    (hrepeat : p.operator.action ≠ .repeatLast)
    (hhost : ∀ names, p.operator.action ≠ .hostCommands names) :
    (Action.run replay p x).1.outward = (Action.run replay p y).1.outward ∧
      (Action.run replay p x).2 = none ∧ (Action.run replay p y).2 = none := by
  unfold Action.run
  cases haction : p.operator.action with
  | move m => exact ⟨outward_move h m, rfl, rfl⟩
  | search s => exact ⟨outward_search h s _, rfl, rfl⟩
  | scroll => exact ⟨outward_scroll h _, rfl, rfl⟩
  | insertBefore => exact ⟨outward_enterInsert (outward_resumeNormal h), rfl, rfl⟩
  | insertAfter => exact ⟨outward_resumeAndMove h .right, rfl, rfl⟩
  | insertLineStart => exact ⟨outward_resumeAndMove h .lineStart, rfl, rfl⟩
  | insertLineEnd => exact ⟨outward_resumeAndMove h .lineEnd, rfl, rfl⟩
  | openBelow => exact ⟨outward_openBelow h, rfl, rfl⟩
  | openAbove => exact ⟨outward_openAbove h, rfl, rfl⟩
  | visual lineWise => exact ⟨outward_toggleVisual h lineWise, rfl, rfl⟩
  | deleteChar => exact ⟨outward_deleteChar h, rfl, rfl⟩
  | pasteAfter => exact ⟨outward_paste h true, rfl, rfl⟩
  | pasteBefore => exact ⟨outward_paste h false, rfl, rfl⟩
  | delete => exact ⟨outward_delete h _, rfl, rfl⟩
  | yank => exact ⟨outward_yank h _, rfl, rfl⟩
  | change => exact ⟨outward_change h _, rfl, rfl⟩
  | indent => exact ⟨outward_indent h _, rfl, rfl⟩
  | dedent => exact ⟨outward_dedent h _, rfl, rfl⟩
  | replaceChar => exact ⟨outward_replaceChar h _, rfl, rfl⟩
  | repeatLast => exact absurd haction hrepeat
  | hostCommands names => exact absurd haction (hhost names)

theorem outward_runPlan (replay : Editor → Editor) (h : x.outward = y.outward)
    (hrepeat : p.operator.action ≠ .repeatLast)
    (hhost : ∀ names, p.operator.action ≠ .hostCommands names) :
    (runPlan replay p x).1.outward = (runPlan replay p y).1.outward ∧
      (runPlan replay p x).2 = none ∧ (runPlan replay p y).2 = none := by
  obtain ⟨haction, hx, hy⟩ := outward_action replay h hrepeat hhost
  refine ⟨?_, hx, hy⟩
  rw [runPlan, runPlan]
  dsimp only
  rw [mode_of_outward haction]
  exact outward_ite (fun _ => outward_resumeNormal haction) fun _ => haction

/-- Planning looks from outside, too. -/
theorem plan?_of_outward (h : x.outward = y.outward) (c : Command) : x.plan? c = y.plan? c := by
  obtain ⟨history, dirty, slots, message, rfl⟩ := exists_amend h
  rfl

end Editor

/-! ### Host commands -/

namespace History

variable {α : Type} (h : History α)

theorem endGroup_beginGroup : h.beginGroup.endGroup = h.endGroup := by
  unfold beginGroup
  split <;> rfl

/-- A change in a group of its own is recorded like one that stands alone. -/
theorem endGroup_checkpoint_beginGroup (before : α) :
    (h.beginGroup.checkpoint before).endGroup = (h.checkpoint before).endGroup := by
  obtain ⟨limit, past, future, grouping⟩ := h
  by_cases hlimit : limit = 0
  · cases grouping <;> simp [beginGroup, checkpoint, endGroup, hlimit]
  · cases grouping <;> simp [beginGroup, checkpoint, endGroup, hlimit]

theorem undo_endGroup (current : α) :
    h.endGroup.undo current = ((h.undo current).1, (h.undo current).2.endGroup) := by
  unfold undo
  rw [show h.endGroup.past = h.past from rfl]
  split <;> rfl

theorem redo_endGroup (current : α) :
    h.endGroup.redo current = ((h.redo current).1, (h.redo current).2.endGroup) := by
  unfold redo
  rw [show h.endGroup.future = h.future from rfl]
  split <;> rfl

end History

namespace Buffer

variable (b : Buffer)

theorem endUndoGroup_revealLine (n : Nat) :
    b.endUndoGroup.revealLine n = (b.revealLine n).endUndoGroup := rfl

theorem restore_endUndoGroup (d : Document) (history : History Document) :
    b.endUndoGroup.restore d history.endGroup = (b.restore d history).endUndoGroup := by
  let c : Buffer := { b with document := d, history, dirty := true }
  exact c.endUndoGroup_revealLine c.cursor.line

theorem undo_endUndoGroup : b.endUndoGroup.undo.2 = b.undo.2.endUndoGroup := by
  have hundo : b.endUndoGroup.history.undo b.endUndoGroup.document = _ :=
    b.history.undo_endGroup b.document
  rw [undo, hundo, undo]
  generalize b.history.undo b.document = result
  rcases result with ⟨_ | d, history⟩
  · rfl
  · exact b.restore_endUndoGroup d history

theorem redo_endUndoGroup : b.endUndoGroup.redo.2 = b.redo.2.endUndoGroup := by
  have hredo : b.endUndoGroup.history.redo b.endUndoGroup.document = _ :=
    b.history.redo_endGroup b.document
  rw [redo, hredo, redo]
  generalize b.history.redo b.document = result
  rcases result with ⟨_ | d, history⟩
  · rfl
  · exact b.restore_endUndoGroup d history

end Buffer

namespace Workspace

variable (w : Workspace)

/-- The workspace with no group of changes begun. -/
def ungrouped : Workspace := { w with buffer := w.buffer.endUndoGroup }

theorem save_ungrouped : w.ungrouped.save = (w.save.1.ungrouped, w.save.2) := by
  unfold save
  rw [show w.ungrouped.buffer.path = w.buffer.path from rfl,
    show w.ungrouped.files = w.files from rfl,
    show w.ungrouped.buffer.lines = w.buffer.lines from rfl]
  split
  · rfl
  · split <;> rfl

/-- **Host commands do not depend on the grouping of changes.** -/
theorem runNamed_ungrouped (name : String) (arguments : List String) :
    w.ungrouped.runNamed name arguments =
      ((w.runNamed name arguments).1.ungrouped, (w.runNamed name arguments).2) := by
  unfold runNamed
  split
  · exact congrArg (fun b => (Workspace.mk b w.files, none)) w.buffer.undo_endUndoGroup
  split
  · exact congrArg (fun b => (Workspace.mk b w.files, none)) w.buffer.redo_endUndoGroup
  split
  · split <;> rfl
  split
  · rw [save_ungrouped]
    generalize w.save = result
    rcases result with ⟨w', _ | failure⟩ <;> rfl
  · rfl

theorem runBound_ungrouped (names : List String) :
    runBound names w.ungrouped = ((runBound names w).1.ungrouped, (runBound names w).2) := by
  induction names generalizing w with
  | nil => rfl
  | cons name names ih =>
    rw [runBound, runBound, runNamed_ungrouped]
    generalize w.runNamed name [] = result
    rcases result with ⟨w', _ | failure⟩
    · exact ih w'
    · rfl

end Workspace

namespace Editor

variable (e : Editor)

/-- The editor with no group of changes begun, no commands remembered and no message. -/
def bare : Editor :=
  { e with toWorkspace := e.toWorkspace.ungrouped, slots := {}, message := none }

theorem resumeNormal_bare : e.bare.resumeNormal = e.resumeNormal.bare := by
  unfold resumeNormal
  rw [show e.bare.phase = e.phase from rfl]
  split <;> rfl

theorem runPlan_bare (replay : Editor → Editor) {p : Plan} {names : List String}
    (h : p.operator.action = .hostCommands names) :
    runPlan replay p e.bare = ((runPlan replay p e).1.bare, (runPlan replay p e).2) := by
  have haction : Action.run replay p e.bare =
      ((Action.run replay p e).1.bare, (Action.run replay p e).2) := by
    unfold Action.run
    rw [h]
    have hbound := e.toWorkspace.runBound_ungrouped names
    exact congrArg (fun result => ({ e.bare with toWorkspace := result.1 }, result.2)) hbound
  rw [runPlan, runPlan, haction]
  generalize Action.run replay p e = result
  rcases result with ⟨x, failure⟩
  dsimp only
  rw [show x.bare.mode = x.mode from rfl]
  split
  · rw [resumeNormal_bare]
  · rfl

end Editor

end ModalEditor
