import ModalEditor.Proofs.Cells
import ModalEditor.Proofs.Repetition
import ModalEditor.Proofs.SameMode
import ModalEditor.Proofs.UndoSteps

/-!
# Cursor and undo group go with the mode

While keys are interpreted, the shape of the cursor shows the mode, and an undo group is open in
insert mode and in no other (`Editor.InStep`).  A command opens a group and at first leaves it open.
No action of a built-in operator closes it, so that it is still open when the command ends in insert
mode; and a command that ends in another mode closes it.  Host commands may close the group, but
they do not enter insert mode.

The invariant holds throughout a run (`Session.Run.inStep`).  With what is known of the cells of the
modal state (`CellSession.foldl_exec_split`), nothing in a session with cells is ever out of step
with its mode (`CellSession.consistent_foldl_exec`).
-/

namespace ModalEditor

/-- The shape of the cursor in a mode. -/
def Mode.cursorStyle : Mode → CursorStyle
  | insert => .line
  | normal | visual => .block

theorem Mode.cursorStyle_eq_line_iff {m : Mode} : m.cursorStyle = .line ↔ m = .insert := by
  cases m <;> decide

/-! ### Open undo groups -/

namespace History

variable {α : Type} {h : History α}

/-- A group has begun and has not ended. -/
def IsOpen (h : History α) : Prop := h.grouping ≠ .closed

theorem isOpen_beginGroup (h : History α) : h.beginGroup.IsOpen := by
  rw [beginGroup, IsOpen]
  split
  · simp
  · assumption

theorem not_isOpen_endGroup (h : History α) : ¬h.endGroup.IsOpen := fun hopen => hopen rfl

theorem IsOpen.checkpoint (hopen : h.IsOpen) (before : α) : (h.checkpoint before).IsOpen := by
  rw [History.checkpoint]
  split
  · exact hopen
  · split
    · next hclosed => exact absurd hclosed hopen
    · simp [IsOpen]
    · exact hopen

end History

namespace Buffer

variable {b : Buffer}

theorem isOpen_edit (h : b.history.IsOpen) (es : List Edit) : (b.edit es).history.IsOpen := by
  rw [edit]
  split
  · exact h
  · exact h.checkpoint _

/-- Plain calls leave an open group open. -/
theorem isOpen_call (h : b.history.IsOpen) {c : Call} (hc : c.isPlain) :
    (b.call c).history.IsOpen := by
  cases he : c.isEdit with
  | false => rwa [(call_of_not_isEdit hc he).1]
  | true =>
    cases c with
    | edit es => exact isOpen_edit h es
    | _ => cases he

theorem isOpen_calls (h : b.history.IsOpen) {cs : List Call} (hcs : ∀ c ∈ cs, c.isPlain) :
    (b.calls cs).history.IsOpen := by
  induction cs generalizing b with
  | nil => exact h
  | cons c cs ih =>
    obtain ⟨hc, hcs⟩ := List.forall_mem_cons.1 hcs
    exact ih (isOpen_call h hc) hcs

end Buffer

namespace Editor

open Command (SpellsIn)

variable {e e' : Editor} {f : Editor → Editor} {c d : Command} {op : Operator} {keys : List Char}
variable {replay : Editor → Editor}

/-- The shape of the cursor shows the mode. -/
def ShowsMode (e : Editor) : Prop := e.buffer.cursorStyle = e.mode.cursorStyle

theorem ShowsMode.of_sameMode (h : e.ShowsMode) (hsame : e'.SameMode e) : e'.ShowsMode := by
  rw [ShowsMode, hsame.cursorStyle, hsame.mode]
  exact h

/-! ### Actions and the shape of the cursor -/

theorem showsMode_resumeNormal (e : Editor) : e.resumeNormal.ShowsMode := by
  rw [ShowsMode, mode_resumeNormal]
  cases h : e.phase <;> simp only [resumeNormal, h] <;> rfl

theorem showsMode_enterInsert (e : Editor) : e.enterInsert.ShowsMode := rfl

theorem showsMode_toggleVisual (e : Editor) (lineWise : Bool) :
    (e.toggleVisual lineWise).ShowsMode := by
  rw [toggleVisual]
  split
  · exact showsMode_resumeNormal e
  · exact (sameMode_moveTo _ _).cursorStyle

/-- An action leaves the mode and the shape of the cursor alone, or it changes both. -/
theorem showsMode_action (p : Plan) (h : e.ShowsMode) (hr : (replay e).ShowsMode) :
    (Action.run replay p e).1.ShowsMode := by
  by_cases hkeeps : p.operator.action.keepsMode = true
  · exact h.of_sameMode (sameMode_action hkeeps)
  · unfold Action.run
    cases haction : p.operator.action with
    | insertBefore | insertAfter | insertLineStart | insertLineEnd | openBelow | openAbove
    | change => exact showsMode_enterInsert _
    | visual lineWise => exact showsMode_toggleVisual e lineWise
    | repeatLast => exact hr
    | _ =>
      rw [haction] at hkeeps
      exact absurd rfl hkeeps

theorem showsMode_runPlan (p : Plan) (h : e.ShowsMode) (hr : (replay e).ShowsMode) :
    (runPlan replay p e).1.ShowsMode := by
  have haction := showsMode_action p h hr
  rw [runPlan]
  dsimp only
  split
  · exact showsMode_resumeNormal _
  · exact haction

/-! ### Commands -/

/-- An undo group is open. -/
def GroupOpen (e : Editor) : Prop := e.buffer.history.IsOpen

theorem Acts.isOpen (hf : Acts false f e) (h : e.GroupOpen) : (f e).GroupOpen := by
  obtain ⟨cs, hcs, hbuffer, -⟩ := hf.exists_calls
  rw [GroupOpen, hbuffer]
  exact Buffer.isOpen_calls h fun c hc => by simpa using hcs c hc

/-- The shape of the cursor shows the mode, and an undo group is open just in insert mode. -/
structure InStep (e : Editor) : Prop where
  showsMode : e.ShowsMode
  groupOpen_iff : e.GroupOpen ↔ e.mode = .insert

/-- A command that begins with the group open ends with it open, if it ends in insert mode. -/
theorem groupOpen_run (hop : e.config.operator? c.operator = some op)
    (haction : op.action ≠ .repeatLast) (hm : e.mode ≠ .insert) (hstyle : e.ShowsMode)
    (hgroup : e.GroupOpen) :
    (e.run c).ShowsMode ∧ ((e.run c).mode = .insert → (e.run c).GroupOpen) := by
  have hsame (x : Editor) (p : Plan) (hp : p.operator = op) :
      runPlan replayLast p x = runPlan id p x := runPlan_congr (by rwa [hp])
  have hstyleRun (x : Editor) (p : Plan) (hx : x.ShowsMode) (hp : p.operator = op) :
      (runPlan replayLast p x).1.ShowsMode := by
    rw [hsame x p hp]
    exact showsMode_runPlan p hx hx
  by_cases hhost : ∃ names, op.action = .hostCommands names
  · -- Host commands may close the group, but they stay out of insert mode.
    obtain ⟨names, hnames⟩ := hhost
    have hall : (e.run c).ShowsMode ∧ (e.run c).mode ≠ .insert := by
      refine run_induct (motive := fun x => x.ShowsMode ∧ x.mode ≠ .insert) hop
        (fun x cause hx => hx) (fun x p hx hxm hp => ⟨hstyleRun x p hx.1 hp, ?_⟩) ⟨hstyle, hm⟩
      have hkeeps : p.operator.action.keepsMode = true := by
        rw [hp, hnames]
        rfl
      rw [runPlan]
      dsimp only
      split
      · rw [mode_resumeNormal]
        decide
      · rw [(sameMode_action hkeeps).mode]
        exact hx.2
    exact ⟨hall.1, fun hinsert => absurd hinsert hall.2⟩
  · -- All other operators make plain calls, and these leave the group open.
    have hall : (e.run c).ShowsMode ∧ (e.run c).GroupOpen := by
      refine run_induct (motive := fun x => x.ShowsMode ∧ x.GroupOpen) hop
        (fun x cause hx => hx) (fun x p hx _ hp => ⟨hstyleRun x p hx.1 hp, ?_⟩) ⟨hstyle, hgroup⟩
      rw [hsame x p hp]
      have hruns : Runs false (runPlan id p) x :=
        runs_runPlan p (.refl x) fun _ names hnames => hhost ⟨names, by rw [← hp, hnames]⟩
      exact hruns.1.isOpen hx.2
    exact ⟨hall.1, fun _ => hall.2⟩

theorem inStep_endUndoGroup (hstyle : e.ShowsMode) (hm : e.mode ≠ .insert) :
    (e.mapBuffer Buffer.endUndoGroup).InStep where
  showsMode := hstyle
  groupOpen_iff := iff_of_false e.buffer.history.not_isOpen_endGroup hm

theorem showsMode_prepare (h : e.ShowsMode) (c : Command) : (e.prepare c).ShowsMode := by
  rw [prepare_eq]
  exact h

/-- A command that is no repetition ends with cursor and group in step with the mode. -/
theorem inStep_dispatch_of_operator (hop : e.config.operator? c.operator = some op)
    (haction : op.action ≠ .repeatLast) (hm : e.mode ≠ .insert) (h : e.ShowsMode) :
    (e.dispatch c).InStep := by
  have hgroup : (e.prepare c).GroupOpen := by
    rw [prepare_eq]
    exact e.buffer.history.isOpen_beginGroup
  obtain ⟨hstyle, hrun⟩ := groupOpen_run (e := e.prepare c) (c := c) (by rwa [config_prepare])
    haction (by rwa [mode_prepare]) (showsMode_prepare h c) hgroup
  rw [dispatch_eq]
  dsimp only
  split
  · next hinsert => exact ⟨hstyle, iff_of_true (hrun hinsert) hinsert⟩
  · next hinsert => exact inStep_endUndoGroup hstyle hinsert

/-- **Commands end with cursor and group in step with the mode.** -/
theorem Versed.inStep_dispatch (hv : e.Versed) (hm : e.mode ≠ .insert)
    (hd : SpellsIn e.config e.mode keys d) (h : e.ShowsMode) : (e.dispatch d).InStep := by
  rcases hv.dispatch_cases hm hd with ⟨c, op, hop, haction, heq⟩ | heq
  · rw [heq]
    exact inStep_dispatch_of_operator hop haction hm h
  · rw [heq]
    exact inStep_endUndoGroup (showsMode_prepare h d) (by rwa [mode_prepare])

/-! ### Steps -/

/-- Plain calls that leave the mode alone keep to an open group in insert mode. -/
theorem InStep.of_acts (h : e.InStep) (hf : Acts false f e) (hsame : (f e).SameMode e)
    (hm : e.mode = .insert) : (f e).InStep where
  showsMode := h.showsMode.of_sameMode hsame
  groupOpen_iff := iff_of_true (hf.isOpen (h.groupOpen_iff.2 hm)) (hsame.mode.trans hm)

/-- A group can as well be closed before returning to normal mode. -/
theorem resumeNormal_endUndoGroup (e : Editor) :
    (e.mapBuffer Buffer.endUndoGroup).resumeNormal = e.forceNormal := by
  obtain ⟨workspace, config, enabled, phase, register, slots, message⟩ := e
  cases phase <;> rfl

theorem inStep_forceNormal (e : Editor) : e.forceNormal.InStep :=
  inStep_endUndoGroup (showsMode_resumeNormal e) (by rw [mode_resumeNormal]; decide)

theorem InStep.typeInserted (h : e.InStep) (hm : e.mode = .insert) (typed : EscapeReader)
    (k : Char) : (e.typeInserted typed k).InStep := by
  have htype : (e.mapBuffer fun b => b.typeText [k]).InStep :=
    h.of_acts (acts_typeText [k]) (sameMode_editAndPlace e _ _) hm
  rw [Editor.typeInserted]
  split
  · exact inStep_forceNormal _
  · have hstyle : (e.mapBuffer fun b => b.typeText [k]).buffer.cursorStyle = .line := by
      rw [htype.showsMode]
      exact Mode.cursorStyle_eq_line_iff.2 hm
    exact ⟨hstyle, iff_of_true (htype.groupOpen_iff.2 hm) rfl⟩

theorem InStep.typeKey (h : e.InStep) (hv : e.Versed) (k : Char) : (e.typeKey k).InStep := by
  by_cases hm : e.mode = .insert
  · obtain ⟨typed, htype⟩ := exists_typeKey_eq_typeInserted hm k
    rw [htype]
    exact h.typeInserted hm typed k
  · -- What has been read matters neither to the cursor nor to the group.
    have hreading (p : Phase) (hp : p.mode = e.mode) : InStep { e with phase := p } := by
      obtain ⟨hstyle, hgroup⟩ := h
      rw [ShowsMode, ← hp] at hstyle
      rw [← hp] at hgroup
      exact ⟨hstyle, hgroup⟩
    rcases typeKey_cases hv.phase hm k with ⟨p, hp, -, heq⟩ | ⟨keys, d, hd, heq⟩
    · rw [heq]
      refine hreading p ?_
      have hmode : p.dropPending.mode = e.phase.dropPending.mode := congrArg Phase.mode hp
      rw [mode_dropPending] at hmode
      rw [← hmode]
      cases p <;> rfl
    · have hmode : mode { e with phase := e.phase.dropPending } = e.mode := mode_dropPending e
      rw [heq]
      rw [← hmode] at hm hd
      exact hv.dropPending.inStep_dispatch hm hd (hreading _ hmode).showsMode

/-- Each step keeps cursor and group in step with the mode, as long as keys are interpreted. -/
theorem InStep.step (h : e.enabled = true → e.InStep) (hv : e.Versed) (hstep : e.Step e')
    (henabled : e'.enabled = true) : e'.InStep := by
  cases hstep with
  | key hbefore k => exact (h hbefore).typeKey hv k
  | text hbefore text =>
    have hbefore' : e.enabled = true := henabled
    rw [hbefore] at hbefore'
    cases hbefore'
  | forceNormal => exact inStep_forceNormal e
  | toggle message =>
    have htoggle : e.toggleEnabled.InStep := by
      have henabled : e.toggleEnabled.enabled = true := henabled
      rw [toggleEnabled] at henabled ⊢
      split at henabled
      · next hon =>
        rw [if_pos hon, resumeNormal_endUndoGroup]
        exact inStep_forceNormal e.toggleDetached
      · next hoff => exact absurd henabled hoff
    exact ⟨htoggle.showsMode, htoggle.groupOpen_iff⟩
  | backspace hm =>
    exact (h henabled).of_acts acts_backspace ⟨rfl, e.buffer.cursorStyle_backspace⟩ hm
  | aside files dirty message =>
    obtain ⟨hstyle, hgroup⟩ := h henabled
    exact ⟨hstyle, hgroup⟩

end Editor

/-- **Throughout a run, cursor and undo group are in step with the mode,** whenever keys are
interpreted. -/
theorem Session.Run.inStep {s : Session} {past : List Session} (h : Run (s :: past))
    (henabled : s.enabled = true) : s.InStep := by
  refine h.invariant (I := fun s => s.enabled = true → s.InStep) ?_ ?_ henabled
  · intro text limit config files clipboard path _
    exact ⟨rfl, iff_of_false (fun hopen => hopen rfl) nofun⟩
  · intro x y before hbefore hx hnext
    exact Editor.InStep.step hx hbefore.versed hnext.step

namespace CellSession

/-- **Nothing is out of step with the mode.**  Wherever typing, returning to normal mode, switching
the interpretation of keys and pressing keys lead: a session with cells is the session with its
phase split, and its cells are consistent; and while keys are interpreted, the cursor is a line just
in insert mode, and an undo group is open just in insert mode. -/
theorem consistent_foldl_exec (text : List Char) (limit : Nat) (config : Config) (files : FileTree)
    (clipboard : Clipboard) (path : Option Path) (cs : List Session.Call) :
    let x := cs.foldl exec (start text limit config files clipboard path)
    x = (cs.foldl Session.exec (Session.start text limit config files clipboard path)).split ∧
      x.cells.Consistent ∧
      (x.enabled = true → (x.buffer.cursorStyle = .line ↔ x.cells.mode = .insert) ∧
        (x.buffer.history.IsOpen ↔ x.cells.mode = .insert)) := by
  intro x
  let s₀ := Session.start text limit config files clipboard path
  let s := cs.foldl Session.exec s₀
  have hx : x = s.split := foldl_exec_split s₀ cs
  refine ⟨hx, hx ▸ s.phase.consistent_cells, fun henabled => ?_⟩
  have hcalls : ∀ o ∈ cs.map Session.Call.operation, o.isCall = true := by
    intro o ho
    obtain ⟨c, -, rfl⟩ := List.mem_map.1 ho
    cases c <;> rfl
  obtain ⟨past, hrun⟩ := Session.exists_run text limit config files clipboard path hcalls
  replace hrun : Session.Run (s :: past) := by rwa [List.foldl_map] at hrun
  rw [hx] at henabled ⊢
  obtain ⟨hstyle, hgroup⟩ := hrun.inStep henabled
  have hmode : s.split.cells.mode = s.mode := CellEditor.mode_split s.toEditor
  rw [hmode]
  refine ⟨?_, hgroup⟩
  have hshown : s.split.buffer.cursorStyle = s.mode.cursorStyle := hstyle
  rw [hshown]
  exact Mode.cursorStyle_eq_line_iff

/-- A word deleted, keys switched off and on again, a line selected and changed; the first key of
the escape sequence has been typed. -/
theorem consistent_foldl_exec_change :
    let x := [.typeKeys ['d', 'w'], .toggleEnabled, .typeKeys ['v'], .press (.ctrl 't'),
      .typeKeys ['V', 'c', 'x', 'j']].foldl exec
        (start ['a', ' ', 'b', '\n', 'c'] 5 {} {} (.memory none) none)
    x.enabled = true ∧ x.cells.mode = .insert ∧ x.cells.anchor.isSome = false ∧
      x.cells.normal = .initial ∧ x.cells.visual = .initial ∧ x.cells.insert ≠ .initial ∧
      x.buffer.cursorStyle = .line ∧ x.buffer.history.IsOpen := by
  intro x
  have hstate : x.enabled = true ∧ x.cells.mode = .insert ∧ x.cells.insert ≠ .initial := by
    decide +kernel
  obtain ⟨henabled, hmode, hread⟩ := hstate
  obtain ⟨-, hcells, hrest⟩ := consistent_foldl_exec ['a', ' ', 'b', '\n', 'c'] 5 {} {}
    (.memory none) none [.typeKeys ['d', 'w'], .toggleEnabled, .typeKeys ['v'], .press (.ctrl 't'),
      .typeKeys ['V', 'c', 'x', 'j']]
  obtain ⟨hstyle, hgroup⟩ := hrest henabled
  have hnormal := hcells.normal (by rw [hmode]; decide)
  have hvisual := hcells.visual (by rw [hmode]; decide)
  have hanchor : x.cells.anchor.isSome = false := by
    rw [Bool.eq_false_iff, Ne, hcells.anchor, hmode]
    decide
  exact ⟨henabled, hmode, hanchor, hnormal, hvisual, hread, hstyle.2 hmode, hgroup.2 hmode⟩

end CellSession

end ModalEditor
