import Mathlib.Tactic.SplitIfs
import ModalEditor.Interpreter

/-!
# Actions that leave the mode alone

Some actions enter a mode, and repeating does what the repeated command does.  All other actions
leave the phase and the shape of the cursor alone (`Editor.sameMode_action`); host commands are
among these, as they have access to the workspace only.
-/

namespace ModalEditor

/-- The action neither enters a mode nor repeats a command that may enter one. -/
def Action.keepsMode : Action → Bool
  | insertBefore | insertAfter | insertLineStart | insertLineEnd | openBelow | openAbove
  | visual _ | change | repeatLast => false
  | _ => true

/-! ### The shape of the cursor -/

namespace Buffer

variable (b : Buffer)

theorem cursorStyle_edit (es : List Edit) : (b.edit es).cursorStyle = b.cursorStyle := by
  rw [edit]
  split <;> rfl

theorem cursorStyle_revealLine (n : Nat) : (b.revealLine n).cursorStyle = b.cursorStyle :=
  rfl

theorem cursorStyle_undo : b.undo.2.cursorStyle = b.cursorStyle := by
  rw [undo]
  split
  · exact cursorStyle_revealLine _ _
  · rfl

theorem cursorStyle_redo : b.redo.2.cursorStyle = b.cursorStyle := by
  rw [redo]
  split
  · exact cursorStyle_revealLine _ _
  · rfl

theorem cursorStyle_backspace : b.backspace.cursorStyle = b.cursorStyle := by
  rw [backspace]
  split
  · exact cursorStyle_edit b _
  · split
    · exact cursorStyle_edit b _
    · rfl

end Buffer

namespace Workspace

theorem cursorStyle_save (w : Workspace) : w.save.1.buffer.cursorStyle = w.buffer.cursorStyle := by
  rw [save]
  split
  · rfl
  · split <;> rfl

/-- Host commands leave the shape of the cursor alone. -/
theorem cursorStyle_runNamed (w : Workspace) (name : String) (arguments : List String) :
    (w.runNamed name arguments).1.buffer.cursorStyle = w.buffer.cursorStyle := by
  rw [runNamed]
  split_ifs
  · exact Buffer.cursorStyle_undo w.buffer
  · exact Buffer.cursorStyle_redo w.buffer
  · split <;> rfl
  · have hsave := cursorStyle_save w
    split
    · next heq => rwa [heq] at hsave
    · next heq => rwa [heq] at hsave
  · rfl

theorem cursorStyle_runBound (names : List String) (w : Workspace) :
    (runBound names w).1.buffer.cursorStyle = w.buffer.cursorStyle := by
  induction names generalizing w with
  | nil => rfl
  | cons name names ih =>
    have hname := cursorStyle_runNamed w name []
    rw [runBound]
    split
    · next w' heq =>
      rw [heq] at hname
      exact (ih w').trans hname
    · next heq => rwa [heq] at hname

end Workspace

namespace Editor

variable {e x y : Editor} {replay : Editor → Editor}

/-- The phase and the shape of the cursor are the same. -/
structure SameMode (x e : Editor) : Prop where
  phase : x.phase = e.phase
  cursorStyle : x.buffer.cursorStyle = e.buffer.cursorStyle

theorem SameMode.refl (e : Editor) : e.SameMode e := ⟨rfl, rfl⟩

theorem SameMode.trans (hx : x.SameMode y) (hy : y.SameMode e) : x.SameMode e :=
  ⟨hx.phase.trans hy.phase, hx.cursorStyle.trans hy.cursorStyle⟩

theorem SameMode.mode (h : x.SameMode e) : x.mode = e.mode := congrArg Phase.mode h.phase

/-! ### Single steps -/

theorem sameMode_edit (e : Editor) (es : List Edit) : (e.edit es).SameMode e :=
  ⟨rfl, Buffer.cursorStyle_edit e.buffer es⟩

theorem sameMode_setCursor (e : Editor) (p : Position) : (e.setCursor p).SameMode e := ⟨rfl, rfl⟩

theorem sameMode_moveTo (e : Editor) (p : Position) : (e.moveTo p).SameMode e :=
  ⟨rfl, Buffer.cursorStyle_revealLine _ _⟩

theorem sameMode_store (e : Editor) (c : Clipping) : (e.store c).SameMode e := by
  rw [store]
  split <;> exact ⟨rfl, rfl⟩

theorem sameMode_editAndPlace (e : Editor) (es : List Edit) (p : Position) :
    ((e.edit es).setCursor p).SameMode e :=
  (sameMode_setCursor _ p).trans (sameMode_edit e es)

theorem sameMode_storeAndEdit (e : Editor) (c : Clipping) (es : List Edit) (p : Position) :
    (((e.store c).edit es).setCursor p).SameMode e :=
  (sameMode_editAndPlace _ es p).trans (sameMode_store e c)

/-! ### Actions -/

theorem sameMode_search (e : Editor) (s : Search) (argument : Option Char) :
    (e.search s argument).SameMode e := by
  cases argument with
  | none => exact .refl e
  | some c => exact sameMode_moveTo e _

theorem sameMode_scroll (e : Editor) (argument : Option Char) :
    (e.scroll argument).SameMode e := by
  rw [scroll]
  split <;> exact ⟨rfl, rfl⟩

theorem sameMode_deleteChar (e : Editor) : e.deleteChar.SameMode e := by
  rw [deleteChar]
  split
  · exact .refl e
  · exact sameMode_storeAndEdit e _ _ _

theorem sameMode_replaceChar (e : Editor) (argument : Option Char) :
    (e.replaceChar argument).SameMode e := by
  unfold replaceChar
  split
  · exact sameMode_editAndPlace e _ _
  · exact .refl e

theorem sameMode_paste (e : Editor) (after : Bool) : (e.paste after).SameMode e := by
  rw [paste]
  split
  · exact .refl e
  · dsimp only
    split
    · split <;> exact sameMode_editAndPlace e _ _
    · exact sameMode_editAndPlace e _ _

theorem sameMode_delete (e : Editor) (t : Target) : (e.delete t).SameMode e := by
  rw [delete]
  split
  · exact .refl e
  · exact sameMode_storeAndEdit e _ _ _

theorem sameMode_yank (e : Editor) (t : Target) : (e.yank t).SameMode e := by
  rw [yank]
  split
  · exact .refl e
  · dsimp only
    split
    · exact (sameMode_setCursor _ _).trans (sameMode_store e _)
    · exact sameMode_store e _

theorem sameMode_landOnText (e : Editor) (es : List Edit) (n : Nat) :
    ((e.edit es).landOnText n).SameMode e := by
  rw [landOnText]
  split
  · exact sameMode_editAndPlace e es _
  · exact sameMode_edit e es

/-- **An action that enters no mode leaves the mode alone.** -/
theorem sameMode_action {p : Plan} (h : p.operator.action.keepsMode = true) :
    (Action.run replay p e).1.SameMode e := by
  unfold Action.run
  cases haction : p.operator.action with
  | move => exact sameMode_moveTo e _
  | search s => exact sameMode_search e s _
  | scroll => exact sameMode_scroll e _
  | deleteChar => exact sameMode_deleteChar e
  | pasteAfter | pasteBefore => exact sameMode_paste e _
  | delete => exact sameMode_delete e _
  | yank => exact sameMode_yank e _
  | indent | dedent => exact sameMode_landOnText e _ _
  | replaceChar => exact sameMode_replaceChar e _
  | hostCommands names => exact ⟨rfl, Workspace.cursorStyle_runBound names e.toWorkspace⟩
  | _ =>
    rw [haction] at h
    cases h

end Editor

end ModalEditor
