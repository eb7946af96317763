import ModalEditor.Proofs.Repetition

/-!
# Selections outside visual mode

Outside visual mode a selection is a caret (`Editor.Plain`).  All commands but the host commands
keep it so (`Editor.plain_dispatch`): edits map both ends alike, moving places a caret, and leaving
visual mode collapses the selection.

Host commands can break it, and in normal mode only: undoing brings back a document as it was when
it was recorded, and that may have been in visual mode.  A selection with extent outside visual mode
always goes back to such a document of the history (`Session.isCaret_or_restored`).
-/

namespace ModalEditor

/-! ### Carets -/

theorem Selection.isCaret_iff {s : Selection} : s.isCaret = true ↔ s.anchor = s.active := by
  simp [isCaret]

theorem Selection.isCaret_map {s : Selection} (h : s.isCaret = true) (f : Position → Position) :
    (s.map f).isCaret = true := by
  rw [isCaret_iff] at h ⊢
  rw [map, h]

namespace Document

variable {d : Document}

theorem isCaret_select {s : Selection} (h : s.isCaret = true) :
    (d.select s).selection.isCaret = true := Selection.isCaret_map h _

theorem isCaret_insert (h : d.selection.isCaret = true) (p : Position) (text : List Char) :
    (d.insert p text).selection.isCaret = true := Selection.isCaret_map h _

theorem isCaret_erase (h : d.selection.isCaret = true) (s : Span) :
    (d.erase s).selection.isCaret = true := by
  unfold erase
  dsimp only
  split
  · exact h
  · exact Selection.isCaret_map h _

theorem isCaret_apply (h : d.selection.isCaret = true) (e : Edit) :
    (d.apply e).selection.isCaret = true := by
  cases e with
  | insert p text => exact isCaret_insert h p text
  | erase s => exact isCaret_erase h s
  | replace s text => exact isCaret_insert (isCaret_erase h s) s.start text

/-- Edits keep a caret. -/
theorem isCaret_applyAll (h : d.selection.isCaret = true) (es : List Edit) :
    (d.applyAll es).selection.isCaret = true := by
  induction es generalizing d with
  | nil => exact h
  | cons e es ih => exact ih (isCaret_apply h e)

end Document

theorem Buffer.isCaret_edit {b : Buffer} (h : b.selection.isCaret = true) (es : List Edit) :
    (b.edit es).selection.isCaret = true := by
  unfold edit
  split
  · exact h
  · exact Document.isCaret_applyAll h es

namespace Editor

variable {e e' x : Editor} {replay : Editor → Editor} {d : Command} {op : Operator} {p : Plan}

/-- Outside visual mode nothing is selected. -/
def Plain (e : Editor) : Prop := e.mode ≠ .visual → e.buffer.selection.isCaret = true

theorem Plain.of_eq (h : e.Plain) (hmode : x.mode = e.mode)
    (hdocument : x.buffer.document = e.buffer.document) : x.Plain := by
  intro hm
  rw [hmode] at hm
  rw [Buffer.selection, hdocument]
  exact h hm

/-- In visual mode anything may be selected. -/
theorem plain_of_visual (h : e.mode = .visual) : e.Plain := fun hm => absurd h hm

theorem plain_of_isCaret (h : e.buffer.selection.isCaret = true) : e.Plain := fun _ => h

/-! ### Actions -/

theorem isCaret_setCursor (e : Editor) (p : Position) :
    (e.setCursor p).buffer.selection.isCaret = true :=
  Document.isCaret_select (by simp [Selection.caret, Selection.isCaret])

theorem plain_setCursor (e : Editor) (p : Position) : (e.setCursor p).Plain :=
  plain_of_isCaret (isCaret_setCursor e p)

theorem plain_edit (h : e.Plain) (es : List Edit) : (e.edit es).Plain := by
  intro hm
  exact Buffer.isCaret_edit (h hm) es

theorem plain_moveTo (e : Editor) (p : Position) : (e.moveTo p).Plain := by
  intro hm
  have hcaret : (e.selectionAt (e.lines.clamp p)).isCaret = true := by
    have hm : e.mode ≠ .visual := hm
    unfold selectionAt
    cases hp : e.phase with
    | normal | insert => simp [Selection.caret, Selection.isCaret]
    | visual =>
      rw [mode, hp] at hm
      exact absurd rfl hm
  have hview := view_moveTo e p
  rw [show (e.moveTo p).buffer.selection = (e.moveTo p).view.document.selection from rfl, hview]
  exact Document.isCaret_select hcaret

theorem isCaret_resumeNormal (h : e.Plain) : e.resumeNormal.buffer.selection.isCaret = true := by
  unfold resumeNormal
  cases hp : e.phase with
  | visual => exact isCaret_setCursor e _
  | normal | insert =>
    refine h ?_
    rw [mode, hp]
    simp [Phase.mode]

theorem plain_resumeNormal (h : e.Plain) : e.resumeNormal.Plain :=
  plain_of_isCaret (isCaret_resumeNormal h)

/-- Entering insert mode after a motion selects nothing. -/
theorem plain_resumeAndMove (e : Editor) (m : Motion) :
    ((e.resumeNormal.move m).enterInsert).Plain := by
  have hm : (e.resumeNormal.move m).mode ≠ .visual := by
    rw [show (e.resumeNormal.move m).mode = e.resumeNormal.mode from rfl, mode_resumeNormal]
    decide
  exact plain_of_isCaret (plain_moveTo e.resumeNormal _ hm)

theorem document_store (e : Editor) (c : Clipping) :
    (e.store c).buffer.document = e.buffer.document := by
  unfold store
  split <;> rfl

theorem plain_store (h : e.Plain) (c : Clipping) : (e.store c).Plain :=
  h.of_eq (sameMode_store e c).mode (document_store e c)

theorem plain_search (h : e.Plain) (s : Search) (argument : Option Char) :
    (e.search s argument).Plain := by
  cases argument with
  | none => exact h
  | some c => exact plain_moveTo e _

theorem plain_scroll (h : e.Plain) (argument : Option Char) : (e.scroll argument).Plain := by
  unfold scroll
  split
  · exact h
  · exact h.of_eq rfl rfl

theorem plain_toggleVisual (h : e.Plain) (lineWise : Bool) : (e.toggleVisual lineWise).Plain := by
  unfold toggleVisual
  split
  · exact plain_resumeNormal h
  · exact plain_of_visual rfl

theorem plain_deleteChar (h : e.Plain) : e.deleteChar.Plain := by
  unfold deleteChar
  split
  · exact h
  · exact plain_setCursor _ _

theorem plain_replaceChar (h : e.Plain) (argument : Option Char) :
    (e.replaceChar argument).Plain := by
  unfold replaceChar
  split
  · exact plain_setCursor _ _
  · exact h

theorem plain_paste (h : e.Plain) (after : Bool) : (e.paste after).Plain := by
  unfold paste
  split
  · exact h
  · dsimp only
    split
    · split <;> exact plain_setCursor _ _
    · exact plain_setCursor _ _

theorem plain_delete (h : e.Plain) (t : Target) : (e.delete t).Plain := by
  unfold delete
  split
  · exact h
  · exact plain_setCursor _ _

theorem plain_yank (h : e.Plain) (t : Target) : (e.yank t).Plain := by
  unfold yank
  split
  · exact h
  · dsimp only
    split
    · exact plain_setCursor _ _
    · exact plain_store h _

theorem plain_landOnText (h : e.Plain) (n : Nat) : (e.landOnText n).Plain := by
  unfold landOnText
  split
  · exact plain_setCursor _ _
  · exact h

/-- All actions but host commands and repetitions leave nothing selected outside visual mode. -/
theorem plain_action (h : e.Plain) (hrepeat : p.operator.action ≠ .repeatLast)
    (hhost : ∀ names, p.operator.action ≠ .hostCommands names) :
    (Action.run replay p e).1.Plain := by
  unfold Action.run
  cases haction : p.operator.action with
  | move m => exact plain_moveTo e _
  | search s => exact plain_search h s _
  | scroll => exact plain_scroll h _
  | insertBefore => exact plain_of_isCaret (isCaret_resumeNormal h)
  | insertAfter => exact plain_resumeAndMove e .right
  | insertLineStart => exact plain_resumeAndMove e .lineStart
  | insertLineEnd => exact plain_resumeAndMove e .lineEnd
  | openBelow | openAbove | change => exact plain_of_isCaret (isCaret_setCursor _ _)
  | visual lineWise => exact plain_toggleVisual h lineWise
  | deleteChar => exact plain_deleteChar h
  | pasteAfter => exact plain_paste h true
  | pasteBefore => exact plain_paste h false
  | delete => exact plain_delete h _
  | yank => exact plain_yank h _
  | indent => exact plain_landOnText (plain_edit h _) _
  | dedent => exact plain_landOnText (plain_edit h _) _
  | replaceChar => exact plain_replaceChar h _
  | repeatLast => exact absurd haction hrepeat
  | hostCommands names => exact absurd haction (hhost names)

/-! ### Commands -/

/-- After an edit, visual mode ends with nothing selected. -/
theorem plain_runPlan (h : (Action.run replay p e).1.Plain) : (runPlan replay p e).1.Plain := by
  rw [runPlan]
  dsimp only
  split
  · exact plain_resumeNormal h
  · exact h

/-- **Commands leave nothing selected outside visual mode**, unless they run host commands in normal
mode. -/
theorem plain_dispatch (h : e.Plain) (hop : e.config.operator? d.operator = some op)
    (hrepeat : op.action ≠ .repeatLast)
    (hhost : e.mode = .visual ∨ ∀ names, op.action ≠ .hostCommands names) :
    (e.dispatch d).Plain := by
  refine dispatch_induct hop (fun x _ hx => hx.of_eq rfl rfl) (fun x p hx hm hp => ?_)
    (fun x hx => hx.of_eq rfl rfl) ?_
  · refine plain_runPlan ?_
    by_cases hnames : ∃ names, op.action = .hostCommands names
    · -- Host commands keep to the mode, which is visual here.
      obtain ⟨names, hnames⟩ := hnames
      rcases hhost with hvisual | hhost
      · refine plain_of_visual ?_
        rw [Action.run, hp, hnames]
        exact hm.trans hvisual
      · exact absurd hnames (hhost names)
    · rw [← hp] at hrepeat hnames
      exact plain_action hx hrepeat fun names hn => hnames ⟨names, hn⟩
  · refine h.of_eq ?_ ?_ <;> rw [prepare_eq] <;> rfl

end Editor

/-! ### Host commands -/

namespace Buffer

/-- The document and the documents that undoing and redoing can bring back. -/
def documents (b : Buffer) : List Document := b.document :: (b.history.past ++ b.history.future)

variable {b : Buffer}

theorem documents_restore (d : Document) (h : History Document) :
    (b.restore d h).documents = d :: (h.past ++ h.future) := by
  rw [documents, restore, revealCursor, document_revealLine, history_revealLine]

theorem documents_undo_subset : b.undo.2.documents ⊆ b.documents := by
  intro d hd
  unfold undo History.undo at hd
  cases hpast : b.history.past with
  | nil =>
    rw [hpast] at hd
    exact hd
  | cons before past =>
    rw [hpast] at hd
    dsimp only at hd
    rw [documents_restore] at hd
    simp only [documents, hpast, List.mem_cons, List.mem_append] at hd ⊢
    tauto

theorem documents_redo_subset : b.redo.2.documents ⊆ b.documents := by
  intro d hd
  unfold redo History.redo at hd
  cases hfuture : b.history.future with
  | nil =>
    rw [hfuture] at hd
    exact hd
  | cons next future =>
    rw [hfuture] at hd
    dsimp only at hd
    rw [documents_restore] at hd
    simp only [documents, hfuture, List.mem_cons, List.mem_append] at hd ⊢
    tauto

theorem documents_beginUndoGroup : b.beginUndoGroup.documents = b.documents := by
  unfold beginUndoGroup History.beginGroup
  split <;> rfl

end Buffer

namespace Workspace

variable {w : Workspace}

theorem documents_save_subset : w.save.1.buffer.documents ⊆ w.buffer.documents := by
  unfold save
  split
  · exact fun _ h => h
  · split <;> exact fun _ h => h

/-- Host commands show documents that were there before, as the document or in the history. -/
theorem documents_runNamed_subset (name : String) (arguments : List String) :
    (w.runNamed name arguments).1.buffer.documents ⊆ w.buffer.documents := by
  unfold runNamed
  split
  · exact Buffer.documents_undo_subset
  split
  · exact Buffer.documents_redo_subset
  split
  · split <;> exact fun _ h => h
  split
  · have hsave := w.documents_save_subset
    split
    · next heq => rwa [heq] at hsave
    · next heq => rwa [heq] at hsave
  · exact fun _ h => h

theorem documents_runBound_subset (names : List String) :
    (runBound names w).1.buffer.documents ⊆ w.buffer.documents := by
  induction names generalizing w with
  | nil => exact fun _ h => h
  | cons name names ih =>
    have hfirst := w.documents_runNamed_subset name []
    rw [runBound]
    split
    · next heq =>
      rw [heq] at hfirst
      exact List.Subset.trans ih hfirst
    · next heq =>
      rw [heq] at hfirst
      exact hfirst

end Workspace

namespace Editor

variable {e e' : Editor} {d : Command} {op : Operator} {names : List String}

/-- In normal mode, host commands keep to the mode and show documents that were there before. -/
theorem document_dispatch_hostCommands (hm : e.mode = .normal)
    (hop : e.config.operator? d.operator = some op) (hhost : op.action = .hostCommands names) :
    (e.dispatch d).mode = .normal ∧ (e.dispatch d).buffer.document ∈ e.buffer.documents := by
  let Shows (x : Editor) : Prop := x.mode = .normal ∧ x.buffer.documents ⊆ e.buffer.documents
  have hshows : Shows (e.dispatch d) := by
    refine dispatch_induct hop (fun x _ hx => hx) (fun x p hx _ hp => ?_) (fun x hx => hx) ?_
    · have haction : Action.run replayLast p x = x.runBound names := by
        rw [Action.run, hp, hhost]
      have hmode : (x.runBound names).1.mode = .normal := hx.1
      have hnot : ¬(p.operator.kind = .edit ∧ (x.runBound names).1.mode = .visual) := by
        rw [hmode]
        simp
      rw [runPlan, haction]
      dsimp only
      rw [if_neg hnot]
      exact ⟨hmode, List.Subset.trans (Workspace.documents_runBound_subset names) hx.2⟩
    · rw [prepare_eq]
      exact ⟨hm, fun x hx => by rwa [← Buffer.documents_beginUndoGroup]⟩
  exact ⟨hshows.1, hshows.2 (List.mem_cons_self ..)⟩

/-! ### Keys and calls -/

theorem isCaret_typeText (b : Buffer) (text : List Char) :
    (b.typeText text).selection.isCaret = true :=
  Document.isCaret_select (by simp [Selection.caret, Selection.isCaret])

theorem plain_forceNormal (h : e.Plain) : e.forceNormal.Plain :=
  (plain_resumeNormal h).of_eq rfl rfl

theorem plain_typeInserted (e : Editor) (typed : EscapeReader) (k : Char) :
    (e.typeInserted typed k).Plain := by
  rw [typeInserted]
  split
  · exact plain_forceNormal (plain_setCursor _ _)
  · exact plain_of_isCaret (isCaret_typeText e.buffer [k])

theorem plain_dropPending (h : e.Plain) : Plain { e with phase := e.phase.dropPending } :=
  h.of_eq (mode_dropPending e) rfl

theorem plain_toggleEnabled (h : e.Plain) : e.toggleEnabled.Plain := by
  rw [toggleEnabled]
  split
  · exact plain_resumeNormal ((plain_dropPending h).of_eq rfl rfl)
  · exact (plain_dropPending h).of_eq rfl rfl

theorem plain_backspace (h : e.Plain) : Plain (e.mapBuffer Buffer.backspace) := by
  intro hm
  have hcaret := h hm
  unfold mapBuffer Buffer.backspace
  dsimp only
  split
  · exact Buffer.isCaret_edit hcaret _
  · split
    · exact Buffer.isCaret_edit hcaret _
    · exact hcaret

/-- A step leaves nothing selected outside visual mode, or it shows a document of the history in
normal mode. -/
theorem Plain.step (h : e.Plain) (hversed : e.Versed) (hstep : e.Step e') : e'.Plain ∨
    e.mode = .normal ∧ e'.mode = .normal ∧ e'.buffer.document ∈ e.buffer.documents := by
  cases hstep with
  | key _ k =>
    by_cases hm : e.mode = .insert
    · obtain ⟨typed, htype⟩ := exists_typeKey_eq_typeInserted hm k
      rw [htype]
      exact .inl (plain_typeInserted e typed k)
    rcases hversed.typeKey_split hm k with ⟨hdocument, hphase⟩ | ⟨d, op, hop, hrepeat, heq⟩
    · have hmode : (e.typeKey k).mode = e.mode := by
        rw [← mode_dropPending (e.typeKey k), hphase, mode_dropPending]
      exact .inl (h.of_eq hmode hdocument)
    rw [heq]
    have hx := plain_dropPending h
    have hxmode : mode { e with phase := e.phase.dropPending } = e.mode := mode_dropPending e
    by_cases hhost : ∃ names, op.action = .hostCommands names
    · obtain ⟨names, hhost⟩ := hhost
      cases hmode : e.mode with
      | normal =>
        obtain ⟨hnormal, hmem⟩ := document_dispatch_hostCommands (hxmode.trans hmode) hop hhost
        exact .inr ⟨rfl, hnormal, hmem⟩
      | insert => exact absurd hmode hm
      | visual => exact .inl (plain_dispatch hx hop hrepeat (.inl (hxmode.trans hmode)))
    · exact .inl (plain_dispatch hx hop hrepeat (.inr fun names hn => hhost ⟨names, hn⟩))
  | text _ text => exact .inl (plain_of_isCaret (isCaret_typeText e.buffer text))
  | forceNormal => exact .inl (plain_forceNormal h)
  | toggle message => exact .inl ((plain_toggleEnabled h).of_eq rfl rfl)
  | backspace => exact .inl (plain_backspace h)
  | aside => exact .inl (h.of_eq rfl rfl)

end Editor

namespace Session

variable {s : Session} {past : List Session}

/-- At a step of the run between two sessions in normal mode, a caret has given way to a document of
the history, and since then visual mode has not been entered and there has been no caret. -/
def Restored (run : List Session) : Prop :=
  ∃ (since : List Session) (y x : Session) (before : List Session),
    run = since ++ y :: x :: before ∧
    x.mode = .normal ∧ x.buffer.selection.isCaret = true ∧
    y.mode = .normal ∧ y.buffer.document ∈ x.buffer.history.past ++ x.buffer.history.future ∧
    ∀ z ∈ since ++ [y], z.mode ≠ .visual ∧ z.buffer.selection.isCaret = false

/-- **Outside visual mode, a selection with extent has been restored.**  In a session that a run
leads to, outside visual mode, the selection is a caret or it goes back to a document of the
history. -/
theorem isCaret_or_restored (h : Run (s :: past)) (hm : s.mode ≠ .visual) :
    s.buffer.selection.isCaret = true ∨ Restored (s :: past) := by
  by_cases hs : s.buffer.selection.isCaret = true
  · exact .inl hs
  right
  obtain ⟨since, y, x, before, heq, hrun, hnext, hx, hall⟩ :=
    h.exists_since (P := fun z => z.mode ≠ .visual ∧ z.buffer.selection.isCaret = false)
      ⟨hm, by simpa using hs⟩ fun _ _ _ _ _ _ hz => by cases hz.2
  have hplain : x.Plain := by
    intro hxm
    by_contra hcaret
    exact hx ⟨hxm, by simpa using hcaret⟩
  obtain ⟨hym, hyselection⟩ := hall y (List.mem_append_right _ (List.mem_singleton_self y))
  -- The step to `y` selects something, so it shows a document of `x`, and not the one on view.
  rcases hplain.step hrun.versed hnext.step with hy | ⟨hxm, hynormal, hmem⟩
  · rw [hy hym] at hyselection
    cases hyselection
  have hxcaret : x.buffer.selection.isCaret = true := hplain (by rw [hxm]; decide)
  refine ⟨since, y, x, before, heq, hxm, hxcaret, hynormal, ?_, hall⟩
  rcases List.mem_cons.1 hmem with hsame | hmem
  · rw [Buffer.selection, hsame] at hyselection
    rw [Buffer.selection, hyselection] at hxcaret
    cases hxcaret
  · exact hmem

/-- A character is deleted in visual mode and brought back, and a key is typed that means nothing:
what the undo has brought back is still selected. -/
theorem isCaret_or_restored_undone :
    let t := start ['a', 'b', 'c'] 5 {} {} (.memory none) none
    let u := t.operate (.typeKeys ['v'])
    let v := u.operate (.typeKeys ['l'])
    let x := v.operate (.typeKeys ['d'])
    let y := x.operate (.typeKeys ['u'])
    let s := y.operate (.typeKeys ['q'])
    Run [s, y, x, v, u, t] ∧ s.mode ≠ .visual ∧ Restored [s, y, x, v, u, t] := by
  intro t u v x y s
  have hrun : Run [s, y, x, v, u, t] :=
    (((((Run.start ..).next (.key 'v')).next (.key 'l')).next (.key 'd')).next (.key 'u')).next
      (.key 'q')
  have hm : s.mode ≠ .visual := by decide +kernel
  have hs : ¬s.buffer.selection.isCaret = true := by decide +kernel
  clear_value s y x v u t
  exact ⟨hrun, hm, (isCaret_or_restored hrun hm).resolve_left hs⟩

/-- Undoing selects in normal mode what was selected when the text was recorded in visual mode. -/
theorem not_isCaret_undone :
    let t := start ['a', 'b', 'c'] 5 {} {} (.memory none) none
    let u := t.operate (.typeKeys ['v'])
    let v := u.operate (.typeKeys ['l'])
    let x := v.operate (.typeKeys ['d'])
    let s := x.operate (.typeKeys ['u'])
    Run [s, x, v, u, t] ∧ s.enabled = true ∧ s.mode = .normal ∧
      s.buffer.selection = ⟨⟨0, 0⟩, ⟨0, 1⟩⟩ := by
  intro t u v x s
  have hrun : Run [s, x, v, u, t] :=
    ((((Run.start ..).next (.key 'v')).next (.key 'l')).next (.key 'd')).next (.key 'u')
  exact ⟨hrun, by decide +kernel, by decide +kernel, by decide +kernel⟩

end Session

end ModalEditor
