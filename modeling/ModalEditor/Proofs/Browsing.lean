import ModalEditor.Proofs.Loop
import ModalEditor.Proofs.SameMode
import ModalEditor.Proofs.UndoSteps

/-!
# Looking around

Moving, searching, scrolling and entering a mode select and scroll, and touch nothing else of the
buffer (`Editor.Browsed`).  Copying fills the register and the clipboard besides.  None of these
commands changes the text, and whatever could be undone or redone before still can be
(`Editor.typeKeys_browsing`).
-/

namespace ModalEditor

namespace Buffer

variable {a b c : Buffer}

/-- The text, the mark of unsaved changes, and what can be undone and redone are the same. -/
structure Unedited (b c : Buffer) : Prop where
  lines : b.lines = c.lines
  dirty : b.dirty = c.dirty
  past : b.history.past = c.history.past
  future : b.history.future = c.history.future

theorem Unedited.refl (b : Buffer) : b.Unedited b := ⟨rfl, rfl, rfl, rfl⟩

theorem Unedited.trans (h : a.Unedited b) (h' : b.Unedited c) : a.Unedited c :=
  ⟨h.lines.trans h'.lines, h.dirty.trans h'.dirty, h.past.trans h'.past, h.future.trans h'.future⟩

theorem unedited_revealLine (b : Buffer) (n : Nat) : (b.revealLine n).Unedited b :=
  ⟨congrArg Document.lines (document_revealLine b n), dirty_revealLine b n,
    congrArg History.past (history_revealLine b n),
    congrArg History.future (history_revealLine b n)⟩

theorem clipboard_revealLine (b : Buffer) (n : Nat) : (b.revealLine n).clipboard = b.clipboard :=
  rfl

theorem unedited_beginUndoGroup (b : Buffer) : b.beginUndoGroup.Unedited b := by
  have hgroup : b.history.beginGroup.past = b.history.past ∧
      b.history.beginGroup.future = b.history.future := by
    rw [History.beginGroup]
    split <;> exact ⟨rfl, rfl⟩
  exact ⟨rfl, rfl, hgroup.1, hgroup.2⟩

end Buffer

namespace Editor

variable {e x y : Editor} {replay : Editor → Editor} {p : Plan} {d : Command} {op : Operator}
variable {k : Char}

/-! ### Browsing -/

/-- Besides, the register, the clipboard and the commands that can be repeated are the same. -/
structure Browsed (x e : Editor) : Prop where
  unedited : x.buffer.Unedited e.buffer
  register : x.register = e.register
  clipboard : x.buffer.clipboard = e.buffer.clipboard
  slots : x.slots = e.slots

theorem Browsed.refl (e : Editor) : e.Browsed e := ⟨.refl _, rfl, rfl, rfl⟩

theorem Browsed.trans (h : x.Browsed y) (h' : y.Browsed e) : x.Browsed e :=
  ⟨h.unedited.trans h'.unedited, h.register.trans h'.register, h.clipboard.trans h'.clipboard,
    h.slots.trans h'.slots⟩

theorem browsed_setCursor (e : Editor) (q : Position) : (e.setCursor q).Browsed e :=
  ⟨⟨rfl, rfl, rfl, rfl⟩, rfl, rfl, rfl⟩

theorem browsed_moveTo (e : Editor) (q : Position) : (e.moveTo q).Browsed e := by
  let b := e.buffer.select (e.selectionAt (e.lines.clamp q))
  have hselect : b.Unedited e.buffer := ⟨rfl, rfl, rfl, rfl⟩
  exact ⟨(Buffer.unedited_revealLine b _).trans hselect, rfl,
    Buffer.clipboard_revealLine b b.cursor.line, rfl⟩

theorem browsed_report (e : Editor) (cause : HostError) : (e.report cause).Browsed e :=
  ⟨⟨rfl, rfl, rfl, rfl⟩, rfl, rfl, rfl⟩

theorem browsed_endUndoGroup (e : Editor) : (e.mapBuffer Buffer.endUndoGroup).Browsed e :=
  ⟨⟨rfl, rfl, rfl, rfl⟩, rfl, rfl, rfl⟩

theorem browsed_enterNormal (e : Editor) : e.enterNormal.Browsed e :=
  ⟨⟨rfl, rfl, rfl, rfl⟩, rfl, rfl, rfl⟩

theorem browsed_enterInsert (e : Editor) : e.enterInsert.Browsed e :=
  ⟨⟨rfl, rfl, rfl, rfl⟩, rfl, rfl, rfl⟩

theorem browsed_enterVisual (e : Editor) (lineWise : Bool) : (e.enterVisual lineWise).Browsed e :=
  (browsed_moveTo _ _).trans ⟨⟨rfl, rfl, rfl, rfl⟩, rfl, rfl, rfl⟩

theorem browsed_resumeNormal (e : Editor) : e.resumeNormal.Browsed e := by
  rw [resumeNormal]
  split
  · exact (browsed_enterNormal _).trans (browsed_setCursor e _)
  · exact browsed_enterNormal e

theorem browsed_resumeAndMove (e : Editor) (m : Motion) :
    (e.resumeNormal.move m).enterInsert.Browsed e :=
  (browsed_enterInsert _).trans ((browsed_moveTo _ _).trans (browsed_resumeNormal e))

theorem browsed_toggleVisual (e : Editor) (lineWise : Bool) :
    (e.toggleVisual lineWise).Browsed e := by
  rw [toggleVisual]
  split
  · exact browsed_resumeNormal e
  · exact browsed_enterVisual e lineWise

theorem browsed_search (e : Editor) (s : Search) (argument : Option Char) :
    (e.search s argument).Browsed e := by
  cases argument with
  | none => exact .refl e
  | some c => exact browsed_moveTo e _

theorem browsed_scroll (e : Editor) (argument : Option Char) : (e.scroll argument).Browsed e := by
  rw [scroll]
  split <;> exact ⟨⟨rfl, rfl, rfl, rfl⟩, rfl, rfl, rfl⟩

/-- **Moving and entering a mode is browsing.** -/
theorem browsed_action (h : p.operator.action.kind = .movement ∨ p.operator.action.kind = .mode) :
    (Action.run replay p e).1.Browsed e := by
  unfold Action.run
  cases haction : p.operator.action with
  | move => exact browsed_moveTo e _
  | search s => exact browsed_search e s _
  | scroll => exact browsed_scroll e _
  | insertBefore => exact (browsed_enterInsert _).trans (browsed_resumeNormal e)
  | insertAfter | insertLineStart | insertLineEnd => exact browsed_resumeAndMove e _
  | visual lineWise => exact browsed_toggleVisual e lineWise
  | _ =>
    rw [haction] at h
    rcases h with h | h <;> cases h

/-! ### Copying -/

theorem unedited_store (e : Editor) (c : Clipping) : (e.store c).buffer.Unedited e.buffer := by
  rw [store]
  split <;> exact ⟨rfl, rfl, rfl, rfl⟩

/-- **Copying leaves the text and the history alone.** -/
theorem unedited_yank (e : Editor) (t : Target) : (e.yank t).buffer.Unedited e.buffer := by
  rw [yank]
  split
  · exact .refl _
  · dsimp only
    split
    · exact (browsed_setCursor _ _).unedited.trans (unedited_store e _)
    · exact unedited_store e _

/-! ### Commands -/

theorem browsed_runPlan (h : p.operator.action.kind = .movement ∨ p.operator.action.kind = .mode) :
    (runPlan replay p e).1.Browsed e := by
  have haction : (Action.run replay p e).1.Browsed e := browsed_action h
  rw [runPlan]
  dsimp only
  split
  · exact (browsed_resumeNormal _).trans haction
  · exact haction

theorem unedited_runPlan_yank (h : p.operator.action = .yank) :
    (runPlan replay p e).1.buffer.Unedited e.buffer := by
  have haction : (Action.run replay p e).1.buffer.Unedited e.buffer := by
    unfold Action.run
    rw [h]
    exact unedited_yank e _
  rw [runPlan]
  dsimp only
  split
  · exact (browsed_resumeNormal _).unedited.trans haction
  · exact haction

theorem sameMode_runPlan (h : p.operator.kind = .movement)
    (hkeeps : p.operator.action.keepsMode = true) : (runPlan replay p e).1.mode = e.mode := by
  have haction : (Action.run replay p e).1.SameMode e := sameMode_action hkeeps
  rw [runPlan]
  dsimp only
  rw [if_neg (by rw [h]; simp)]
  exact haction.mode

theorem browsed_dispatch (hop : e.config.operator? d.operator = some op)
    (h : op.kind = .movement ∨ op.kind = .mode) : (e.dispatch d).Browsed e := by
  have hkind : op.kind = op.action.kind := (Config.operator?_kind hop).1
  refine dispatch_induct (motive := fun x => x.Browsed e) hop
    (fun x cause hx => (browsed_report x cause).trans hx) (fun x p hx _ hp => ?_)
    (fun x hx => (browsed_endUndoGroup x).trans hx) ?_
  · refine (browsed_runPlan ?_).trans hx
    rwa [hp, ← hkind]
  · -- Only edits are remembered for repeating.
    have hedit : e.isEdit d = false := by
      rw [isEdit, hop]
      show (op.kind == .edit) = false
      rcases h with h | h <;> rw [h] <;> rfl
    rw [prepare_eq, hedit]
    exact ⟨Buffer.unedited_beginUndoGroup e.buffer, rfl, rfl, rfl⟩

theorem unedited_dispatch_yank (hop : e.config.operator? d.operator = some op)
    (h : op.action = .yank) : (e.dispatch d).buffer.Unedited e.buffer := by
  refine dispatch_induct (motive := fun x => x.buffer.Unedited e.buffer) hop
    (fun x cause hx => (browsed_report x cause).unedited.trans hx) (fun x p hx _ hp => ?_)
    (fun x hx => (browsed_endUndoGroup x).unedited.trans hx) ?_
  · refine (unedited_runPlan_yank ?_).trans hx
    rwa [hp]
  · rw [prepare_eq]
    exact Buffer.unedited_beginUndoGroup e.buffer

theorem mode_dispatch_movement (hop : e.config.operator? d.operator = some op)
    (h : op.kind = .movement) : (e.dispatch d).mode = e.mode := by
  have hkind : op.action.kind = .movement := (Config.operator?_kind hop).1.symm.trans h
  have hkeeps : op.action.keepsMode = true := by
    cases haction : op.action <;> rw [haction] at hkind <;> first | rfl | cases hkind
  refine dispatch_induct (motive := fun x => x.mode = e.mode) hop (fun x cause hx => hx)
    (fun x p hx _ hp => ?_) (fun x hx => hx) (mode_prepare e d)
  rw [sameMode_runPlan (by rw [hp, h]) (by rw [hp, hkeeps]), hx]

/-! ### Keys -/

/-- In insert mode no key completes a command. -/
theorem mode_ne_insert_of_completes? (hd : e.completes? k = some d) : e.mode ≠ .insert := by
  intro hm
  obtain ⟨typed, hp⟩ := Phase.exists_insert hm
  rw [completes?, hp] at hd
  cases hd

/-- **Commands that do not edit leave the document and its history alone.**  When a key completes a
command that moves or enters a mode, or one of an unbound `y`, the lines, the mark of unsaved
changes and both parts of the history are as they were.  The commands that move or enter a mode
also leave the register, the clipboard and the commands to repeat alone, and a movement keeps the
mode. -/
theorem typeKeys_browsing (henabled : e.enabled = true) (hd : e.completes? k = some d)
    (hop : e.config.operator? d.operator = some op) :
    let x := e.typeKeys [k]
    (op.kind = .movement ∨ op.kind = .mode ∨
        d.operator = 'y' ∧ e.config.hostCommands? 'y' = none →
      x.lines = e.lines ∧ x.buffer.dirty = e.buffer.dirty ∧
        x.buffer.history.past = e.buffer.history.past ∧
        x.buffer.history.future = e.buffer.history.future) ∧
    (op.kind = .movement ∨ op.kind = .mode →
      x.register = e.register ∧ x.buffer.clipboard = e.buffer.clipboard ∧ x.slots = e.slots) ∧
    (op.kind = .movement → x.mode = e.mode) := by
  intro x
  obtain ⟨phase, hphase, htype⟩ := typeKey_eq (mode_ne_insert_of_completes? hd) k
  let z : Editor := { e with phase }
  have hx : x = z.dispatch d := by
    have hkey : x = e.typeKey k := if_pos henabled
    rw [hkey, htype e rfl rfl, hd]
    rfl
  have hunedited (h : x.buffer.Unedited e.buffer) :
      x.lines = e.lines ∧ x.buffer.dirty = e.buffer.dirty ∧
        x.buffer.history.past = e.buffer.history.past ∧
        x.buffer.history.future = e.buffer.history.future :=
    ⟨h.lines, h.dirty, h.past, h.future⟩
  have hbrowsed (h : op.kind = .movement ∨ op.kind = .mode) : x.Browsed e := by
    rw [hx]
    have hdispatch : (z.dispatch d).Browsed z := browsed_dispatch hop h
    exact ⟨hdispatch.unedited, hdispatch.register, hdispatch.clipboard, hdispatch.slots⟩
  refine ⟨fun h => hunedited ?_, fun h => ?_, fun h => ?_⟩
  · rcases h with h | h | ⟨hy, hhost⟩
    · exact (hbrowsed (.inl h)).unedited
    · exact (hbrowsed (.inr h)).unedited
    · have hyank : op.action = .yank := by
        rw [hy, Config.operator?, hhost] at hop
        exact congrArg Operator.action (Option.some.inj hop).symm
      rw [hx]
      exact unedited_dispatch_yank (e := z) hop hyank
  · exact ⟨(hbrowsed h).register, (hbrowsed h).clipboard, (hbrowsed h).slots⟩
  · rw [hx, mode_dispatch_movement (e := z) hop h]
    exact hphase

/-- After a deletion has been undone, moving, entering visual mode and copying all leave it to be
redone. -/
theorem typeKeys_browsing_undone :
    let w : Workspace := { buffer := .ofText ['a', 'b', ' ', 'c'] }
    let e := (ofWorkspace w {}).typeKeys ['x', 'u']
    let y := e.typeKeys ['y']
    e.buffer.history.future.length = 1 ∧
      (e.typeKeys ['l']).buffer.history.future = e.buffer.history.future ∧
      (e.typeKeys ['l']).mode = .normal ∧
      (e.typeKeys ['v']).buffer.history.future = e.buffer.history.future ∧
      (e.typeKeys ['v']).slots = e.slots ∧
      (y.typeKeys ['w']).buffer.history.future = y.buffer.history.future ∧
      (y.typeKeys ['w']).register.isSome = true ∧ y.buffer.history.future.length = 1 := by
  intro w e y
  have he : e.enabled = true := by decide +kernel
  have hy : y.enabled = true := by decide +kernel
  have hmove := typeKeys_browsing (e := e) (k := 'l') (d := { operator := 'l' }) he
    (by decide +kernel) (show e.config.operator? 'l' = some (.moving .right) by decide +kernel)
  have hvisual := typeKeys_browsing (e := e) (k := 'v') (d := { operator := 'v' }) he
    (by decide +kernel)
    (show e.config.operator? 'v' = some ⟨.alone, .mode, .visual false⟩ by decide +kernel)
  have hcopy := typeKeys_browsing (e := y) (k := 'w') (d := { operator := 'y', motion := some 'w' })
    hy (by decide +kernel)
    (show y.config.operator? 'y' = some ⟨.range, .edit, .yank⟩ by decide +kernel)
  exact ⟨by decide +kernel, (hmove.1 (.inl rfl)).2.2.2, (hmove.2.2 rfl).trans (by decide +kernel),
    (hvisual.1 (.inr (.inl rfl))).2.2.2, (hvisual.2.1 (.inr rfl)).2.2,
    (hcopy.1 (.inr (.inr ⟨rfl, by decide +kernel⟩))).2.2.2, by decide +kernel, by decide +kernel⟩

end Editor

end ModalEditor
