import Mathlib.Data.List.Infix
import ModalEditor.Proofs.Clippings
import ModalEditor.Proofs.Loop

/-!
# Sharing the register over a clipboard

An editor that shares its register over a clipboard, to which nobody else writes, is the mirror
image of one that does not (`Editor.mirror`): on the clipboard is what is in the register.  Commands
lead from mirror images to mirror images (`Editor.Mirrors.dispatch`), so that sharing the register
does not show (`Editor.typeKeys_sync`).

This is so as long as no text by characters that could be mistaken for whole lines is pasted.
-/

namespace ModalEditor

/-- The action that puts the register into the text. -/
def Action.isPaste (a : Action) : Prop := a = .pasteAfter ∨ a = .pasteBefore

namespace Workspace

variable (w : Workspace) (text : Option (List Char))

/-- The workspace with a clipboard of its own. -/
def withClipboard : Workspace := { w with buffer := { w.buffer with clipboard := .memory text } }

theorem revealLine_withClipboard (b : Buffer) (n : Nat) :
    Buffer.revealLine { b with clipboard := .memory text } n =
      { b.revealLine n with clipboard := .memory text } := rfl

theorem restore_withClipboard (b : Buffer) (d : Document) (history : History Document) :
    Buffer.restore { b with clipboard := .memory text } d history =
      { b.restore d history with clipboard := .memory text } := by
  let c : Buffer := { b with document := d, history, dirty := true }
  exact revealLine_withClipboard text c c.cursor.line

theorem undo_withClipboard (b : Buffer) :
    (Buffer.undo { b with clipboard := .memory text }).2 =
      { b.undo.2 with clipboard := .memory text } := by
  unfold Buffer.undo
  dsimp only
  split
  · exact restore_withClipboard text b _ _
  · rfl

theorem redo_withClipboard (b : Buffer) :
    (Buffer.redo { b with clipboard := .memory text }).2 =
      { b.redo.2 with clipboard := .memory text } := by
  unfold Buffer.redo
  dsimp only
  split
  · exact restore_withClipboard text b _ _
  · rfl

theorem save_withClipboard :
    (w.withClipboard text).save = (w.save.1.withClipboard text, w.save.2) := by
  unfold save withClipboard
  dsimp only
  split
  · rfl
  · rw [show Buffer.lines { w.buffer with clipboard := .memory text } = w.buffer.lines from rfl]
    split <;> rfl

/-- Host commands have nothing to do with the clipboard. -/
theorem runNamed_withClipboard (name : String) (arguments : List String) :
    (w.withClipboard text).runNamed name arguments =
      ((w.runNamed name arguments).1.withClipboard text, (w.runNamed name arguments).2) := by
  unfold runNamed
  split
  · exact congrArg (fun b => (Workspace.mk b w.files, none)) (undo_withClipboard text w.buffer)
  split
  · exact congrArg (fun b => (Workspace.mk b w.files, none)) (redo_withClipboard text w.buffer)
  split
  · split <;> rfl
  split
  · rw [save_withClipboard]
    generalize w.save = result
    rcases result with ⟨w', _ | failure⟩ <;> rfl
  · rfl

theorem runBound_withClipboard (names : List String) :
    runBound names (w.withClipboard text) =
      ((runBound names w).1.withClipboard text, (runBound names w).2) := by
  induction names generalizing w with
  | nil => rfl
  | cons name names ih =>
    rw [runBound, runBound, runNamed_withClipboard]
    generalize w.runNamed name [] = result
    rcases result with ⟨w', _ | failure⟩
    · exact ih w'
    · rfl

end Workspace

namespace Editor

variable {x y e : Editor} {replay : Editor → Editor} {p : Plan} {c : Command}

/-- The editor with its register shared over a clipboard of its own. -/
def mirror (e : Editor) : Editor :=
  { e with
    buffer := { e.buffer with clipboard := .memory (e.register.map Clipping.encode) }
    config := { e.config with syncRegister := true } }

/-- `x` is the mirror image of `y`, whose register holds what has been taken from a text. -/
structure Mirrors (x y : Editor) : Prop where
  eq : x = y.mirror
  taken {c : Clipping} (h : y.register = some c) : c.IsTaken

/-- The register is not shared, and what it holds cannot be mistaken for something else. -/
structure Faithful (e : Editor) : Prop where
  alone : e.config.syncRegister = false
  clear {c : Clipping} (h : e.register = some c) : ¬c.IsMistakable

theorem Faithful.of_eq (h : x.Faithful) (hconfig : y.config = x.config)
    (hregister : y.register = x.register) : y.Faithful :=
  ⟨by rw [hconfig, h.alone], fun hc => h.clear (hregister ▸ hc)⟩

namespace Mirrors

theorem mode (h : x.Mirrors y) : x.mode = y.mode := by
  rw [h.eq]
  rfl

theorem lines (h : x.Mirrors y) : x.lines = y.lines := by
  rw [h.eq]
  rfl

theorem cursorChar? (h : x.Mirrors y) : x.cursorChar? = y.cursorChar? := by
  rw [h.eq]
  rfl

theorem clipping (h : x.Mirrors y) (t : Target) : x.clipping t = y.clipping t := by
  rw [h.eq]
  rfl

theorem plan? (h : x.Mirrors y) (c : Command) : x.plan? c = y.plan? c := by
  rw [h.eq]
  rfl

theorem ite {P : Prop} [Decidable P] {x' y' : Editor} (h : P → x.Mirrors y)
    (h' : ¬P → x'.Mirrors y') : (if P then x else x').Mirrors (if P then y else y') := by
  by_cases hp : P
  · rw [if_pos hp, if_pos hp]
    exact h hp
  · rw [if_neg hp, if_neg hp]
    exact h' hp

/-! ### Calls and changes of mode -/

theorem report (h : x.Mirrors y) (cause : HostError) :
    (x.report cause).Mirrors (y.report cause) := by
  obtain ⟨rfl, htaken⟩ := h
  exact ⟨rfl, htaken⟩

theorem edit (h : x.Mirrors y) (es : List Edit) : (x.edit es).Mirrors (y.edit es) := by
  obtain ⟨rfl, htaken⟩ := h
  cases es <;> exact ⟨rfl, htaken⟩

theorem setCursor (h : x.Mirrors y) (q : Position) : (x.setCursor q).Mirrors (y.setCursor q) := by
  obtain ⟨rfl, htaken⟩ := h
  exact ⟨rfl, htaken⟩

theorem typeText (h : x.Mirrors y) (text : List Char) :
    (x.mapBuffer fun b => b.typeText text).Mirrors (y.mapBuffer fun b => b.typeText text) := by
  obtain ⟨rfl, htaken⟩ := h
  exact ⟨rfl, htaken⟩

theorem endUndoGroup (h : x.Mirrors y) :
    (x.mapBuffer Buffer.endUndoGroup).Mirrors (y.mapBuffer Buffer.endUndoGroup) := by
  obtain ⟨rfl, htaken⟩ := h
  exact ⟨rfl, htaken⟩

theorem enterInsert (h : x.Mirrors y) : x.enterInsert.Mirrors y.enterInsert := by
  obtain ⟨rfl, htaken⟩ := h
  exact ⟨rfl, htaken⟩

theorem reveal (h : x.Mirrors y) (n : Nat) :
    (x.mapBuffer fun b => b.revealLine n).Mirrors (y.mapBuffer fun b => b.revealLine n) := by
  obtain ⟨rfl, htaken⟩ := h
  exact ⟨rfl, htaken⟩

theorem moveTo (h : x.Mirrors y) (q : Position) : (x.moveTo q).Mirrors (y.moveTo q) := by
  let s := y.selectionAt (y.lines.clamp q)
  have hselect : (x.mapBuffer fun b => b.select s).Mirrors (y.mapBuffer fun b => b.select s) := by
    obtain ⟨rfl, htaken⟩ := h
    exact ⟨rfl, htaken⟩
  have hreveal := hselect.reveal (y.buffer.select s).cursor.line
  obtain ⟨rfl, -⟩ := h
  exact hreveal

theorem resumeNormal (h : x.Mirrors y) : x.resumeNormal.Mirrors y.resumeNormal := by
  obtain ⟨rfl, htaken⟩ := h
  unfold Editor.resumeNormal
  dsimp only [mirror]
  split <;> exact ⟨rfl, htaken⟩

theorem enterVisual (h : x.Mirrors y) (lineWise : Bool) :
    (x.enterVisual lineWise).Mirrors (y.enterVisual lineWise) := by
  let anchor := y.phase.anchor?.getD
    (if lineWise then ⟨y.buffer.clampedCursor.line, 0⟩ else y.buffer.clampedCursor)
  let enter (e : Editor) : Editor := { e.mapBuffer fun b => { b with cursorStyle := .block } with
    phase := .visual anchor lineWise .initial }
  have henter : (enter x).Mirrors (enter y) := by
    obtain ⟨rfl, htaken⟩ := h
    exact ⟨rfl, htaken⟩
  have hmove := henter.moveTo y.buffer.clampedCursor
  obtain ⟨rfl, -⟩ := h
  exact hmove

/-- What is stored goes into the register and, where it is shared, on the clipboard. -/
theorem store (h : x.Mirrors y) {c : Clipping} (hc : c.IsTaken) :
    (x.store c).Mirrors (y.store c) := by
  obtain ⟨rfl, -⟩ := h
  have hstore : (y.store c).mirror = mirror { y with register := some c } := by
    unfold Editor.store
    split <;> rfl
  exact ⟨hstore.symm, fun hd => Option.some.inj hd ▸ hc⟩

/-- Of a faithful register there is the same to paste. -/
theorem pasteContent (h : x.Mirrors y) (hy : y.Faithful) : x.pasteContent = y.pasteContent := by
  obtain ⟨rfl, htaken⟩ := h
  have hregister : y.pasteContent = y.register := by simp [Editor.pasteContent, hy.alone]
  rw [hregister]
  cases hc : y.register with
  | none => simp [Editor.pasteContent, mirror, Clipboard.read, hc]
  | some c =>
    have hdecode : Clipping.decode c.encode = c :=
      (Clipping.decode_encode_iff (htaken hc)).2 (hy.clear hc)
    cases hencode : c.encode with
    | nil => simp [Editor.pasteContent, mirror, Clipboard.read, hc, hencode]
    | cons d ds =>
      rw [hencode] at hdecode
      simp [Editor.pasteContent, mirror, Clipboard.read, hc, hencode, hdecode]

/-! ### Actions -/

theorem move (h : x.Mirrors y) (m : Motion) : (x.move m).Mirrors (y.move m) := by
  have hmove := h.moveTo (m.target y.lines y.separators y.buffer.clampedCursor)
  obtain ⟨rfl, -⟩ := h
  exact hmove

theorem search (h : x.Mirrors y) (s : Search) (argument : Option Char) :
    (x.search s argument).Mirrors (y.search s argument) := by
  cases argument with
  | none => exact h
  | some k =>
    have hmove := h.moveTo (s.target y.lines y.buffer.clampedCursor k)
    obtain ⟨rfl, -⟩ := h
    exact hmove

theorem scroll (h : x.Mirrors y) (argument : Option Char) :
    (x.scroll argument).Mirrors (y.scroll argument) := by
  obtain ⟨rfl, htaken⟩ := h
  unfold Editor.scroll
  split <;> exact ⟨rfl, htaken⟩

theorem openBelow (h : x.Mirrors y) : x.openBelow.Mirrors y.openBelow := by
  have hresume := h.resumeNormal
  let n := y.resumeNormal.buffer.clampedCursor.line
  have hopen := ((hresume.edit [.insert (y.resumeNormal.lines.lineEnd n) ['\n']]).setCursor
    ⟨n + 1, 0⟩).enterInsert
  unfold Editor.openBelow
  rw [hresume.eq] at hopen ⊢
  exact hopen

theorem openAbove (h : x.Mirrors y) : x.openAbove.Mirrors y.openAbove := by
  have hresume := h.resumeNormal
  let n := y.resumeNormal.buffer.clampedCursor.line
  have hopen := ((hresume.edit [.insert ⟨n, 0⟩ ['\n']]).setCursor ⟨n, 0⟩).enterInsert
  unfold Editor.openAbove
  rw [hresume.eq] at hopen ⊢
  exact hopen

theorem toggleVisual (h : x.Mirrors y) (lineWise : Bool) :
    (x.toggleVisual lineWise).Mirrors (y.toggleVisual lineWise) := by
  have htoggle := ite (P := y.mode = .visual ∧ y.phase.isLineWise = lineWise)
    (fun _ => h.resumeNormal) fun _ => h.enterVisual lineWise
  obtain ⟨rfl, -⟩ := h
  exact htoggle

theorem deleteChar (h : x.Mirrors y) : x.deleteChar.Mirrors y.deleteChar := by
  unfold Editor.deleteChar
  rw [h.cursorChar?, h.lines]
  split
  · exact h
  · exact ((h.store (Clipping.isTaken_take _ _)).edit _).setCursor _

theorem replaceChar (h : x.Mirrors y) (argument : Option Char) :
    (x.replaceChar argument).Mirrors (y.replaceChar argument) := by
  unfold Editor.replaceChar
  rw [h.cursorChar?]
  split
  · exact (h.edit _).setCursor _
  · exact h

theorem paste (h : x.Mirrors y) (hy : y.Faithful) (after : Bool) :
    (x.paste after).Mirrors (y.paste after) := by
  unfold Editor.paste
  rw [h.pasteContent hy]
  split
  · exact h
  · next content _ =>
    let q := y.buffer.clampedCursor
    have hpaste := ite (P := content.lineWise)
      (fun _ => ite (P := after)
        (fun _ => (h.edit [.insert (y.lines.lineEnd q.line) ('\n' :: content.text)]).setCursor
          ⟨q.line + 1, 0⟩)
        fun _ => (h.edit [.insert ⟨q.line, 0⟩ (content.text ++ ['\n'])]).setCursor ⟨q.line, 0⟩)
      fun _ => (h.edit [.insert q content.text]).setCursor (q.advance content.text)
    obtain ⟨rfl, -⟩ := h
    exact hpaste

theorem storeTarget (h : x.Mirrors y) (t : Target) :
    (x.store (x.clipping t)).Mirrors (y.store (y.clipping t)) := by
  rw [h.clipping]
  exact h.store (Clipping.isTaken_take _ _)

theorem delete (h : x.Mirrors y) (t : Target) : (x.delete t).Mirrors (y.delete t) := by
  refine ite (fun _ => h) fun _ => ?_
  have hedit := (h.storeTarget t).edit [.erase t.span]
  dsimp only
  -- Where the cursor goes depends on the lines that are left.
  rw [hedit.lines]
  exact hedit.setCursor _

theorem yank (h : x.Mirrors y) (t : Target) : (x.yank t).Mirrors (y.yank t) := by
  refine ite (fun _ => h) fun _ => ?_
  have hstore := h.storeTarget t
  dsimp only
  rw [hstore.mode]
  exact ite (fun _ => hstore.setCursor _) fun _ => hstore

theorem change (h : x.Mirrors y) (t : Target) : (x.change t).Mirrors (y.change t) := by
  have hstore := ite (P := t.span.isEmpty) (fun _ => h) fun _ => h.storeTarget t
  unfold Editor.change
  rw [h.lines]
  exact ((ite (fun _ => hstore) fun _ => hstore.edit _).resumeNormal.setCursor _).enterInsert

theorem landOnText (h : x.Mirrors y) (n : Nat) : (x.landOnText n).Mirrors (y.landOnText n) := by
  unfold Editor.landOnText
  rw [h.mode, h.lines]
  exact ite (fun _ => h.setCursor _) fun _ => h

theorem indent (h : x.Mirrors y) (t : Target) : (x.indent t).Mirrors (y.indent t) := by
  unfold Editor.indent
  obtain ⟨rfl, htaken⟩ := h
  exact (edit ⟨rfl, htaken⟩ _).landOnText _

theorem dedent (h : x.Mirrors y) (t : Target) : (x.dedent t).Mirrors (y.dedent t) := by
  unfold Editor.dedent
  obtain ⟨rfl, htaken⟩ := h
  exact (edit ⟨rfl, htaken⟩ _).landOnText _

theorem runBound (h : x.Mirrors y) (names : List String) :
    (x.runBound names).1.Mirrors (y.runBound names).1 ∧
      (x.runBound names).2 = (y.runBound names).2 := by
  obtain ⟨rfl, htaken⟩ := h
  have hbound : Workspace.runBound names y.mirror.toWorkspace = _ :=
    y.toWorkspace.runBound_withClipboard (y.register.map Clipping.encode) names
  unfold Editor.runBound
  rw [hbound]
  exact ⟨⟨rfl, htaken⟩, rfl⟩

/-- **Actions lead from mirror images to mirror images**, and fail for both or for none. -/
theorem action (h : x.Mirrors y)
    (hrepeat : p.operator.action = .repeatLast → (replay x).Mirrors (replay y))
    (hpaste : p.operator.action.isPaste → y.Faithful) :
    (Action.run replay p x).1.Mirrors (Action.run replay p y).1 ∧
      (Action.run replay p x).2 = (Action.run replay p y).2 := by
  unfold Action.run
  cases haction : p.operator.action with
  | move m => exact ⟨h.move m, rfl⟩
  | search s => exact ⟨h.search s _, rfl⟩
  | scroll => exact ⟨h.scroll _, rfl⟩
  | insertBefore => exact ⟨h.resumeNormal.enterInsert, rfl⟩
  | insertAfter => exact ⟨(h.resumeNormal.move .right).enterInsert, rfl⟩
  | insertLineStart => exact ⟨(h.resumeNormal.move .lineStart).enterInsert, rfl⟩
  | insertLineEnd => exact ⟨(h.resumeNormal.move .lineEnd).enterInsert, rfl⟩
  | openBelow => exact ⟨h.openBelow, rfl⟩
  | openAbove => exact ⟨h.openAbove, rfl⟩
  | visual lineWise => exact ⟨h.toggleVisual lineWise, rfl⟩
  | deleteChar => exact ⟨h.deleteChar, rfl⟩
  | pasteAfter => exact ⟨h.paste (hpaste (.inl haction)) true, rfl⟩
  | pasteBefore => exact ⟨h.paste (hpaste (.inr haction)) false, rfl⟩
  | delete => exact ⟨h.delete _, rfl⟩
  | yank => exact ⟨h.yank _, rfl⟩
  | change => exact ⟨h.change _, rfl⟩
  | indent => exact ⟨h.indent _, rfl⟩
  | dedent => exact ⟨h.dedent _, rfl⟩
  | replaceChar => exact ⟨h.replaceChar _, rfl⟩
  | repeatLast => exact ⟨hrepeat haction, rfl⟩
  | hostCommands names => exact h.runBound names

/-! ### Commands -/

/-- Running the plan leads from mirror images to mirror images, and fails for both or for none. -/
theorem runPlan (h : x.Mirrors y)
    (hrepeat : p.operator.action = .repeatLast → (replay x).Mirrors (replay y))
    (hpaste : p.operator.action.isPaste → y.Faithful) :
    (Editor.runPlan replay p x).1.Mirrors (Editor.runPlan replay p y).1 ∧
      (Editor.runPlan replay p x).2 = (Editor.runPlan replay p y).2 := by
  obtain ⟨haction, hfailure⟩ := h.action hrepeat hpaste
  refine ⟨?_, hfailure⟩
  unfold Editor.runPlan
  dsimp only
  rw [haction.mode]
  exact ite (fun _ => haction.resumeNormal) fun _ => haction

end Mirrors

/-! ### Pasting again and again -/

theorem faithful_of_paste {after : Bool} (h : e.Faithful) : (e.paste after).Faithful := by
  have hacts : Acts true (·.paste after) e := acts_paste after
  refine h.of_eq hacts.config ?_
  unfold paste
  split
  · rfl
  · dsimp only
    split_ifs <;> rfl

theorem Faithful.leaveVisual (h : e.Faithful) : e.leaveVisual.Faithful := by
  have hview := e.view_leaveVisual
  unfold View.leaveVisual at hview
  split at hview
  · exact h.of_eq (congrArg View.config hview) (congrArg View.register hview)
  · exact h.of_eq (congrArg View.config hview) (congrArg View.register hview)

theorem faithful_runPlan (haction : (Action.run replay p e).1.Faithful) :
    (runPlan replay p e).1.Faithful := by
  unfold runPlan
  dsimp only
  split
  · next hm =>
    have hleave := haction.leaveVisual
    rwa [leaveVisual, if_pos hm.2] at hleave
  · exact haction

/-- Pasting leaves the register faithful. -/
theorem Faithful.runPlan (h : e.Faithful) (hpaste : p.operator.action.isPaste) :
    (Editor.runPlan replay p e).1.Faithful := by
  refine faithful_runPlan ?_
  unfold Action.run
  rcases hpaste with hpaste | hpaste
  · rw [hpaste]
    exact faithful_of_paste h
  · rw [hpaste]
    exact faithful_of_paste h

theorem config_runPlan_id (p : Plan) (e : Editor) : (runPlan id p e).1.config = e.config :=
  have hruns : Runs true (runPlan id p) e := runs_runPlan p (.refl e) fun h => by cases h
  hruns.1.config

theorem Faithful.runWith (h : e.Faithful) {op : Operator}
    (hop : e.config.operator? c.operator = some op) (hpaste : op.action.isPaste) :
    (runWith id e c).Faithful := by
  unfold Editor.runWith
  split
  · exact h
  · next p hp =>
    refine (repeatPlan_induct (motive := fun x => x.Faithful ∧ x.config = e.config)
      (fun x cause hx => ⟨hx.1.of_eq rfl rfl, hx.2⟩) (fun x q hx _ hq => ?_)
      p.count ⟨h, rfl⟩ rfl hp).1
    have hoperator := operator_of_plan? hq
    rw [hx.2, hop, Option.some_inj] at hoperator
    exact ⟨hx.1.runPlan (hoperator ▸ hpaste), (config_runPlan_id q x).trans hx.2⟩

namespace Mirrors

/-- A command that pastes only if the register is faithful leads from mirror images to mirror
images. -/
theorem runWith_id (h : x.Mirrors y)
    (hpaste : ∀ op, y.config.operator? c.operator = some op → op.action.isPaste → y.Faithful) :
    (runWith id x c).Mirrors (runWith id y c) := by
  unfold Editor.runWith
  rw [h.plan?, h.mode]
  split
  · exact h
  · next p hp =>
    refine (repeatPlan_rel (R := fun x' y' => x'.Mirrors y' ∧ y'.config = y.config ∧
      ∀ op, y.config.operator? c.operator = some op → op.action.isPaste → y'.Faithful)
      (fun h => h.1.mode) (fun h => h.1.plan? c) ?_ ?_ p.count ⟨h, rfl, hpaste⟩ rfl hp).1
    · rintro x' y' cause ⟨hxy, hconfig, hfaithful⟩
      exact ⟨hxy.report cause, hconfig, fun op hop haction =>
        (hfaithful op hop haction).of_eq rfl rfl⟩
    · rintro x' y' q ⟨hxy, hconfig, hfaithful⟩ - hq
      have hoperator := operator_of_plan? hq
      rw [hconfig] at hoperator
      have hreplay : q.operator.action = .repeatLast → (id x').Mirrors (id y') := fun _ => hxy
      obtain ⟨hrun, hfailure⟩ := hxy.runPlan hreplay (hfaithful q.operator hoperator)
      refine ⟨⟨hrun, (config_runPlan_id q y').trans hconfig, fun op hop haction => ?_⟩, hfailure⟩
      obtain rfl : op = q.operator := Option.some.inj (hop.symm.trans hoperator)
      exact (hfaithful _ hop haction).runPlan haction

theorem replayLast (h : x.Mirrors y)
    (hpaste : ∀ d op, y.slots.last y.mode = some d → y.config.operator? d.operator = some op →
      op.action.isPaste → y.Faithful) : x.replayLast.Mirrors y.replayLast := by
  have hslots : x.slots = y.slots := by
    rw [h.eq]
    rfl
  unfold Editor.replayLast
  rw [hslots, h.mode]
  split
  · exact h
  · next d hd => exact h.runWith_id fun op hop => hpaste d op hd hop

/-- Repeating a command, too, pastes only if the remembered command does, which leaves the register
faithful. -/
theorem run_repeatLast {op : Operator} (h : x.Mirrors y) (hy : y.Faithful)
    (hop : y.config.operator? c.operator = some op) (hrepeat : op.action = .repeatLast) :
    (x.run c).Mirrors (y.run c) := by
  let pastes : Prop := ∃ d op, y.slots.last y.mode = some d ∧
    y.config.operator? d.operator = some op ∧ op.action.isPaste
  unfold Editor.run Editor.runWith
  rw [h.plan?, h.mode]
  split
  · exact h
  · next p hp =>
    refine (repeatPlan_rel (R := fun x' y' => x'.Mirrors y' ∧ y'.config = y.config ∧
      y'.slots = y.slots ∧ (pastes → y'.Faithful))
      (fun h => h.1.mode) (fun h => h.1.plan? c) ?_ ?_ p.count ⟨h, rfl, rfl, fun _ => hy⟩ rfl hp).1
    · rintro x' y' cause ⟨hxy, hconfig, hslots, hfaithful⟩
      exact ⟨hxy.report cause, hconfig, hslots, fun hpastes => (hfaithful hpastes).of_eq rfl rfl⟩
    · rintro x' y' q ⟨hxy, hconfig, hslots, hfaithful⟩ hm hq
      have hoperator := operator_of_plan? hq
      rw [hconfig, hop, Option.some_inj] at hoperator
      have haction : q.operator.action = .repeatLast := hoperator ▸ hrepeat
      have hreplay : x'.replayLast.Mirrors y'.replayLast := by
        refine hxy.replayLast fun d op hd hdop hpaste => hfaithful ⟨d, op, ?_, ?_, hpaste⟩
        · rwa [← hslots, ← hm]
        · rwa [← hconfig]
      obtain ⟨hrun, hfailure⟩ := hxy.runPlan (p := q) (fun _ => hreplay) fun hpaste => by
          rcases hpaste with hpaste | hpaste
          · rw [hpaste] at haction
            cases haction
          · rw [hpaste] at haction
            cases haction
      refine ⟨⟨hrun, (acts_runPlan q).config.trans hconfig, (acts_runPlan q).slots.trans hslots,
        fun hpastes => faithful_runPlan ?_⟩, hfailure⟩
      obtain ⟨d, op, hd, hdop, hpaste⟩ := hpastes
      have hlast : y'.slots.last y'.mode = some d := by rwa [hslots, hm]
      have hfaith : (Editor.runWith id y' d).Faithful :=
        (hfaithful ⟨d, op, hd, hdop, hpaste⟩).runWith (by rwa [hconfig]) hpaste
      simpa [Action.run, haction, Editor.replayLast, hlast] using hfaith

/-- **Commands lead from mirror images to mirror images.** -/
theorem run (h : x.Mirrors y) (hy : y.Faithful) (c : Command) : (x.run c).Mirrors (y.run c) := by
  have hoperator : x.config.operator? c.operator = y.config.operator? c.operator := by
    rw [h.eq]
    rfl
  cases hop : y.config.operator? c.operator with
  | none =>
    have hnone : y.plan? c = none := by simp [Editor.plan?, hop]
    unfold Editor.run Editor.runWith
    rw [h.plan?, hnone]
    exact h
  | some op =>
    by_cases hrepeat : op.action = .repeatLast
    · exact h.run_repeatLast hy hop hrepeat
    · rw [Editor.run, Editor.run, runWith_congr (hoperator.trans hop) hrepeat,
        runWith_congr hop hrepeat]
      exact h.runWith_id fun _ _ _ => hy

theorem prepare (h : x.Mirrors y) (c : Command) : (x.prepare c).Mirrors (y.prepare c) := by
  obtain ⟨rfl, htaken⟩ := h
  rw [prepare_eq, prepare_eq]
  exact ⟨rfl, htaken⟩

theorem dispatch (h : x.Mirrors y) (hy : y.Faithful) (c : Command) :
    (x.dispatch c).Mirrors (y.dispatch c) := by
  have hprepare : (y.prepare c).Faithful := by
    rw [prepare_eq]
    exact hy.of_eq rfl rfl
  have hrun := (h.prepare c).run hprepare c
  rw [dispatch_eq, dispatch_eq]
  dsimp only
  rw [hrun.mode]
  exact ite (fun _ => hrun) fun _ => hrun.endUndoGroup

/-! ### Keys -/

theorem leaveInsert (h : x.Mirrors y) : x.leaveInsert.Mirrors y.leaveInsert := by
  let stop := y.buffer.cursor
  let start := y.lines.stepBack stop y.escape.length
  have hleave := (((h.edit [.erase (.between start stop)]).setCursor
    start).resumeNormal).endUndoGroup
  obtain ⟨rfl, -⟩ := h
  exact hleave

theorem typeInserted (h : x.Mirrors y) (typed : EscapeReader) (k : Char) :
    (x.typeInserted typed k).Mirrors (y.typeInserted typed k) := by
  have htype := h.typeText [k]
  have hescape : x.escape = y.escape := by
    rw [h.eq]
    rfl
  unfold Editor.typeInserted
  dsimp only
  rw [show (x.mapBuffer fun b => b.typeText [k]).escape = x.escape from rfl, hescape]
  refine ite (fun _ => htype.leaveInsert) fun _ => ?_
  obtain ⟨hx, htaken⟩ := htype
  rw [hx]
  exact ⟨rfl, htaken⟩

theorem dispatch? (h : x.Mirrors y) (hy : y.Faithful) (c : Option Command) :
    (x.dispatch? c).Mirrors (y.dispatch? c) := by
  cases c with
  | none => exact h
  | some c => exact h.dispatch hy c

/-- **Keys lead from mirror images to mirror images.** -/
theorem typeKey (h : x.Mirrors y) (hy : y.Faithful) (k : Char) :
    (x.typeKey k).Mirrors (y.typeKey k) := by
  have hphase : x.phase = y.phase := by
    rw [h.eq]
    rfl
  have hwith (p : Phase) : Mirrors { x with phase := p } { y with phase := p } := by
    obtain ⟨rfl, htaken⟩ := h
    exact ⟨rfl, htaken⟩
  have hfaithful (p : Phase) : Faithful { y with phase := p } := hy.of_eq rfl rfl
  cases hp : y.phase with
  | insert typed =>
    simp only [Editor.typeKey, hphase, hp]
    exact h.typeInserted typed k
  | normal reading =>
    have hread : reading.read x.config k = reading.read y.config k := by
      rw [h.eq]
      rfl
    simp only [Editor.typeKey, hphase, hp, hread]
    exact (hwith _).dispatch? (hfaithful _) _
  | visual anchor lineWise reading =>
    have hread : reading.read x.config k = reading.read y.config k := by
      rw [h.eq]
      rfl
    simp only [Editor.typeKey, hphase, hp, hread]
    exact (hwith _).dispatch? (hfaithful _) _

/-- Keys typed one after the other, each of them with a register that cannot be mistaken. -/
theorem foldl_typeKey {keys : List Char} (h : x.Mirrors y) (halone : y.config.syncRegister = false)
    (hclear : ∀ u k, u ++ [k] <+: keys → ∀ c, (u.foldl Editor.typeKey y).register = some c →
      ¬c.IsMistakable) :
    (keys.foldl Editor.typeKey x).Mirrors (keys.foldl Editor.typeKey y) := by
  induction keys using List.reverseRecOn with
  | nil => exact h
  | append_singleton keys k ih =>
    have hbefore := ih fun u k hu => hclear u k (hu.trans (List.prefix_append keys [_]))
    have hfaithful : (keys.foldl Editor.typeKey y).Faithful :=
      ⟨by rw [(settings_foldl_typeKey keys y).1, halone], hclear keys k (List.prefix_refl _) _⟩
    rw [List.foldl_append, List.foldl_append]
    exact hbefore.typeKey hfaithful k

end Mirrors

/-- The editor with its register shared over the clipboard, or not. -/
def withSync (e : Editor) (v : Bool) : Editor :=
  { e with config := { e.config with syncRegister := v } }

/-- **Sharing the register over a clipboard does not show.**  With nothing in the register and on
the clipboard at first, the same keys lead to the same text, selection, mode, message and register,
whether the register is shared or not; if only no key is typed while the register holds characters
that could be mistaken for whole lines. -/
theorem typeKeys_sync (hregister : e.register = none)
    (hclipboard : e.buffer.clipboard = .memory none) {keys : List Char}
    (hclear : ∀ u k, u ++ [k] <+: keys → ∀ c, ((e.withSync false).typeKeys u).register = some c →
      ¬c.IsMistakable) :
    let x := (e.withSync true).typeKeys keys
    let y := (e.withSync false).typeKeys keys
    x.buffer.text = y.buffer.text ∧ x.buffer.selection = y.buffer.selection ∧ x.phase = y.phase ∧
      x.message = y.message ∧ x.register = y.register := by
  intro x y
  have hstart : (e.withSync true).Mirrors (e.withSync false) := by
    refine ⟨?_, fun hc => ?_⟩
    · unfold mirror withSync
      dsimp only
      rw [hregister, Option.map_none, ← hclipboard]
    · cases hregister.symm.trans hc
  have hend : x.Mirrors y := by
    by_cases henabled : e.enabled = true
    · have htyped (v : Bool) (text : List Char) :
          (e.withSync v).typeKeys text = text.foldl typeKey (e.withSync v) := if_pos henabled
      simp only [htyped] at hclear
      simp only [x, y, htyped]
      exact hstart.foldl_typeKey rfl hclear
    · have htyped (v : Bool) : (e.withSync v).typeKeys keys =
          (e.withSync v).mapBuffer fun b => b.typeText keys := if_neg henabled
      simp only [x, y, htyped]
      exact hstart.typeText keys
  rw [hend.eq]
  exact ⟨rfl, rfl, rfl, rfl, rfl⟩

/-- A line copied and pasted below itself, then a word deleted and pasted. -/
theorem typeKeys_sync_lineAndWord :
    let e := (Session.start ['a', 'b'] 5 {} {} (.memory none) none).toEditor
    let keys := ['y', 'y', 'p', 'd', 'w', 'P']
    let x := (e.withSync true).typeKeys keys
    let y := (e.withSync false).typeKeys keys
    x.buffer.text = ['a', 'b', '\n', 'a', 'b'] ∧ x.buffer.text = y.buffer.text ∧
      x.register = some ⟨['a', 'b'], false⟩ ∧ x.register = y.register := by
  intro e keys
  have hregister : e.register = none := rfl
  have hclipboard : e.buffer.clipboard = .memory none := rfl
  have hclear : ∀ u ∈ keys.inits, ∀ c ∈ ((e.withSync false).typeKeys u).register,
      ¬c.IsMistakable := by decide +kernel
  have htext : ((e.withSync true).typeKeys keys).buffer.text = ['a', 'b', '\n', 'a', 'b'] := by
    decide +kernel
  have hword : ((e.withSync true).typeKeys keys).register = some ⟨['a', 'b'], false⟩ := by
    decide +kernel
  clear_value e keys
  have hprefix : ∀ u k, u ++ [k] <+: keys →
      ∀ c ∈ ((e.withSync false).typeKeys u).register, ¬c.IsMistakable := fun u k hu =>
    hclear u ((List.mem_inits u keys).2 ((List.prefix_append u [k]).trans hu))
  obtain ⟨hsame, -, -, -, hshared⟩ := typeKeys_sync hregister hclipboard hprefix
  exact ⟨htext, hsame, hword, hshared⟩

/-- Characters that begin with the mark of whole lines, copied and pasted: on the way over the
clipboard they become a line. -/
theorem not_typeKeys_sync_marker :
    let e := (Session.start [Clipping.marker, 'a', 'b'] 5 {} {} (.memory none) none).toEditor
    let x := (e.withSync true).typeKeys ['y', 'w', 'p']
    let y := (e.withSync false).typeKeys ['y', 'w', 'p']
    e.register = none ∧ e.buffer.clipboard = .memory none ∧
      x.buffer.text = [Clipping.marker, 'a', 'b', '\n', 'a', 'b'] ∧
      y.buffer.text = [Clipping.marker, 'a', 'b', Clipping.marker, 'a', 'b'] ∧
      x.buffer.text ≠ y.buffer.text := by
  intro e x y
  exact ⟨rfl, rfl, by decide +kernel, by decide +kernel, by decide +kernel⟩

end Editor

end ModalEditor
