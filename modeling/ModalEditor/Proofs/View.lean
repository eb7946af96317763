import ModalEditor.Proofs.Footprint
import ModalEditor.Proofs.Motion

/-!
# The view of an editor

What operators on a range read and change is only part of an editor: the document, the clipboard,
the register, the phase and the settings.  `Editor.view` forgets the rest, and each building block
of the operators acts on the view (`Editor.view_edit`, `Editor.view_store` and so on).

Dispatching a command shows the view that running it shows (`Editor.view_dispatch`).

The operators on characters make the same of a span whether it is selected or not
(`View.alike_delete`, `View.alike_yank`, `View.alike_change`).
-/

namespace ModalEditor

/-- The part of an editor that operators on a range read and change. -/
structure View where
  document : Document
  clipboard : Clipboard
  register : Option Clipping
  phase : Phase
  config : Config

namespace View

variable (w : View)

/-- The view with another selection. -/
def select (s : Selection) : View := { w with document := w.document.select s }

/-- The view with a filled register. -/
def store (c : Clipping) : View :=
  { w with
    clipboard := if w.config.syncRegister then w.clipboard.write c.encode else w.clipboard
    register := some c }

/-- The view with the text of a span taken into the register. -/
def cut (s : Span) : View :=
  { w.store (.take (w.document.lines.slice s) false) with document := w.document.erase s }

/-- Delete a span. -/
def delete (s : Span) : View :=
  if s.isEmpty then w else (w.cut s).select (.caret s.start)

/-- Copy a span. -/
def yank (s : Span) : View :=
  if s.isEmpty then w
  else
    let w := w.store (.take (w.document.lines.slice s) false)
    if w.phase.mode = .normal then w.select (.caret s.start) else w

/-- Delete a span and insert instead. -/
def change (s : Span) : View :=
  { (if s.isEmpty then w else w.cut s).select (.caret s.start) with phase := .insert .initial }

/-- The view in visual mode, selecting from `p` to `q`. -/
def visual (p q : Position) : View :=
  { w with
    document := { w.document with selection := ⟨p, q⟩ }
    phase := .visual p false .initial }

/-- Leave visual mode, with the cursor at the start of the selection. -/
def leaveVisual : View :=
  if w.phase.mode = .visual then
    { w.select (.caret w.document.selection.span.start) with phase := .normal .initial }
  else w

end View

namespace Editor

variable (e : Editor)

/-- The view of an editor. -/
def view : View :=
  ⟨e.buffer.document, e.buffer.clipboard, e.register, e.phase, e.config⟩

@[simp] theorem view_revealLine (n : Nat) :
    (e.mapBuffer fun b => b.revealLine n).view = e.view := rfl

@[simp] theorem view_edit (es : List Edit) :
    (e.edit es).view = { e.view with document := e.view.document.applyAll es } := by
  cases es <;> rfl

@[simp] theorem view_setCursor (p : Position) :
    (e.setCursor p).view = e.view.select (.caret p) := rfl

@[simp] theorem view_store (c : Clipping) : (e.store c).view = e.view.store c := by
  by_cases h : e.config.syncRegister
  · rw [store, if_pos h, View.store, if_pos (show e.view.config.syncRegister from h)]; rfl
  · rw [store, if_neg h, View.store, if_neg (show ¬e.view.config.syncRegister from h)]; rfl

@[simp] theorem view_enterInsert :
    e.enterInsert.view = { e.view with phase := .insert .initial } := rfl

theorem view_moveTo (p : Position) :
    (e.moveTo p).view = e.view.select (e.selectionAt (e.lines.clamp p)) :=
  view_revealLine (e.mapBuffer fun b => b.select (e.selectionAt (e.lines.clamp p))) _

/-- Leave visual mode, as after an edit. -/
def leaveVisual : Editor := if e.mode = .visual then e.resumeNormal else e

theorem view_leaveVisual : e.leaveVisual.view = e.view.leaveVisual := by
  cases h : e.phase with
  | visual =>
    rw [leaveVisual, if_pos (by rw [mode, h]; rfl), View.leaveVisual,
      if_pos (by rw [show e.view.phase = _ from h]; rfl)]
    simp only [resumeNormal, h]; rfl
  | normal | insert =>
    have hmode : e.mode ≠ .visual := by simp [mode, h, Phase.mode]
    rw [leaveVisual, if_neg hmode, View.leaveVisual]
    exact (if_neg hmode).symm

/-- Placing the cursor makes up for the place where visual mode leaves it. -/
theorem view_resumeNormal_setCursor (p : Position) : (e.resumeNormal.setCursor p).view =
    { e.view.select (.caret p) with phase := .normal .initial } := by
  cases h : e.phase <;> simp only [resumeNormal, h] <;> rfl

/-! ### The operators on characters -/

theorem view_delete (s : Span) : (e.delete (.ofSpan s)).view = e.view.delete s := by
  by_cases h : s.isEmpty
  · rw [delete, if_pos (show (Target.ofSpan s).span.isEmpty from h), View.delete, if_pos h]
  · rw [delete, if_neg (show ¬(Target.ofSpan s).span.isEmpty from h), View.delete, if_neg h]
    simp only [view_setCursor, view_edit, view_store]
    rfl

theorem view_yank (s : Span) : (e.yank (.ofSpan s)).view = e.view.yank s := by
  by_cases h : s.isEmpty
  · rw [yank, if_pos (show (Target.ofSpan s).span.isEmpty from h), View.yank, if_pos h]
  · rw [yank, if_neg (show ¬(Target.ofSpan s).span.isEmpty from h), View.yank, if_neg h]
    let x := e.store (e.clipping (.ofSpan s))
    have hx : x.view = e.view.store (.take (e.view.document.lines.slice s) false) :=
      view_store ..
    show (if true ∧ x.mode = .normal then x.setCursor s.start else x).view =
      if (e.view.store _).phase.mode = .normal then _ else _
    rw [← hx]
    by_cases hm : x.mode = .normal
    · rw [if_pos ⟨rfl, hm⟩, if_pos (show x.view.phase.mode = .normal from hm)]; rfl
    · rw [if_neg fun h => hm h.2, if_neg (show ¬x.view.phase.mode = .normal from hm)]

theorem view_change (s : Span) : (e.change (.ofSpan s)).view = e.view.change s := by
  let x := if s.isEmpty then e else e.store (e.clipping (.ofSpan s))
  let y := if s.isEmpty then x else x.edit [.erase s]
  have hy : y.view = if s.isEmpty then e.view else e.view.cut s := by
    by_cases h : s.isEmpty
    · simp only [y, x, if_pos h]
    · simp only [y, x, if_neg h, view_edit, view_store]; rfl
  show ((y.resumeNormal.setCursor s.start).enterInsert).view = _
  rw [view_enterInsert, view_resumeNormal_setCursor, hy]; rfl

theorem lines_landOnText (n : Nat) : (e.landOnText n).lines = e.lines := by
  rw [landOnText]; split <;> rfl

theorem mode_landOnText (n : Nat) : (e.landOnText n).mode = e.mode := by
  rw [landOnText]; split <;> rfl

theorem mode_edit (es : List Edit) : (e.edit es).mode = e.mode := rfl

theorem mode_indent (t : Target) : (e.indent t).mode = e.mode := by
  simp only [indent, mode_landOnText, mode_edit]

theorem mode_dedent (t : Target) : (e.dedent t).mode = e.mode := by
  simp only [dedent, mode_landOnText, mode_edit]

variable {e}

/-! ### Running commands -/

/-- Running an edit once ends visual mode. -/
theorem runPlan_edit {replay : Editor → Editor} {p : Plan} (h : p.operator.kind = .edit) :
    runPlan replay p e = ((Action.run replay p e).1.leaveVisual, (Action.run replay p e).2) := by
  simp [runPlan, leaveVisual, h]

theorem view_prepare (c : Command) : (e.prepare c).view = e.view := by
  rw [prepare_eq]; rfl

/-- Dispatching a command shows what running it shows. -/
theorem view_dispatch (c : Command) : (e.dispatch c).view = ((e.prepare c).run c).view := by
  simp only [dispatch_eq]
  split <;> rfl

/-- A plan to run once is run once. -/
theorem repeatPlan_one {replay : Editor → Editor} {c : Command} {start : Mode} {p : Plan}
    (h : (runPlan replay p e).2 = none) :
    repeatPlan replay c start 1 p e = (runPlan replay p e).1 := by
  rcases hrun : runPlan replay p e with ⟨e', _ | failure⟩
  · simp only [repeatPlan, hrun]
    split
    · split <;> rfl
    · rfl
  · rw [hrun] at h; cases h

/-- The plan of a command that needs no range. -/
theorem plan?_of_arity {c : Command} {op : Operator} (hop : e.config.operator? c.operator = some op)
    (harity : op.arity ≠ .range) (hvirtual : c.isVirtual = false) :
    e.plan? c = some ⟨op, max c.count 1, .ofSpan (.point e.buffer.cursor), c.argument⟩ := by
  rcases op with ⟨arity, kind, action⟩
  cases arity <;> simp_all [plan?]

/-- A command without a range and without a count is run once. -/
theorem view_dispatch_once {c : Command} {op : Operator} {f : Editor → Editor}
    (hop : e.config.operator? c.operator = some op) (harity : op.arity ≠ .range)
    (hvirtual : c.isVirtual = false) (hcount : c.count = 1)
    (hrun : ∀ replay plan, plan.operator = op →
      runPlan replay plan (e.prepare c) = (f (e.prepare c), none)) :
    (e.dispatch c).view = (f (e.prepare c)).view := by
  have hop' : (e.prepare c).config.operator? c.operator = some op := by rw [config_prepare, hop]
  rw [view_dispatch, run, runWith, plan?_of_arity hop' harity hvirtual]
  dsimp only
  rw [hcount, Nat.max_self, repeatPlan_one (by rw [hrun _ _ rfl]), hrun _ _ rfl]

/-- The plan of a command with a range. -/
theorem plan?_of_range {c : Command} {kind : Kind} {action : Action}
    (hop : e.config.operator? c.operator = some ⟨.range, kind, action⟩)
    (hvirtual : c.isVirtual = false) {t : Target} (ht : e.target? c = some t) :
    e.plan? c = some ⟨⟨.range, kind, action⟩, if e.mode = .visual then 1 else max c.count 1, t,
      c.argument⟩ := by
  simp [plan?, hop, hvirtual, ht]

end Editor

/-! ### Views that look alike -/

namespace Document

variable {d d' : Document}

theorem select_of_lines (h : d.lines = d'.lines) (s : Selection) : d.select s = d'.select s := by
  simp [select, h]

theorem lines_erase_of_lines (h : d.lines = d'.lines) (s : Span) :
    (d.erase s).lines = (d'.erase s).lines := by
  simp only [erase, h]; split
  · exact h
  · rfl

theorem lines_apply_of_lines (h : d.lines = d'.lines) (e : Edit) :
    (d.apply e).lines = (d'.apply e).lines := by
  cases e with
  | insert p t => simp only [apply, insert, h]
  | erase s => exact lines_erase_of_lines h s
  | replace s t => simp only [apply, insert, lines_erase_of_lines h s]

/-- What edits make of the lines does not depend on the selection. -/
theorem lines_applyAll_of_lines (h : d.lines = d'.lines) (es : List Edit) :
    (d.applyAll es).lines = (d'.applyAll es).lines := by
  induction es generalizing d d' with
  | nil => exact h
  | cons e es ih => exact ih (lines_apply_of_lines h e)

/-- A cursor in the text stays where it is. -/
theorem select_caret_again (h : d.lines ≠ []) (p : Position) :
    (d.select (.caret p)).select (.caret (d.select (.caret p)).selection.span.start) =
      d.select (.caret p) := by
  have hp := Lines.clamp_of_inRange (Lines.inRange_clamp h p)
  have hstart : (d.select (.caret p)).selection.span.start = d.lines.clamp p := by
    rw [Selection.span, select, Selection.map, Selection.caret, Span.between_of_le]
    exact Position.le_refl _
  rw [hstart, select, select]
  simp only [Selection.map, Selection.caret, hp]

end Document

theorem Span.isEmpty_between {p q : Position} : (between p q).isEmpty ↔ p = q := by
  rw [between]
  split
  · simp only [isEmpty, beq_iff_eq]
  · simp only [isEmpty, beq_iff_eq]; exact eq_comm

namespace View

/-- Two views that look alike to the user: they agree in all but the other end of the selection. -/
structure Alike (v w : View) : Prop where
  lines : v.document.lines = w.document.lines
  cursor : v.document.cursor = w.document.cursor
  register : v.register = w.register
  clipboard : v.clipboard = w.clipboard
  mode : v.phase.mode = w.phase.mode

theorem Alike.of_document {v w : View} (hdocument : v.document = w.document)
    (hregister : v.register = w.register) (hclipboard : v.clipboard = w.clipboard)
    (hmode : v.phase.mode = w.phase.mode) : v.Alike w :=
  ⟨by rw [hdocument], by rw [hdocument], hregister, hclipboard, hmode⟩

variable {w : View} {p q : Position} {r : NormalReader} {s : Span}

theorem lines_visual (w : View) (p q : Position) :
    (w.visual p q).document.lines = w.document.lines := rfl

theorem leaveVisual_of_ne (h : w.phase.mode ≠ .visual) : w.leaveVisual = w := if_neg h

theorem leaveVisual_of_visual (h : w.phase.mode = .visual) : w.leaveVisual =
    { w.select (.caret w.document.selection.span.start) with phase := .normal .initial } := if_pos h

theorem lines_leaveVisual (w : View) : w.leaveVisual.document.lines = w.document.lines := by
  rw [leaveVisual]; split <;> rfl

theorem mode_leaveVisual (h : w.phase.mode ≠ .insert) : w.leaveVisual.phase.mode = .normal := by
  cases hm : w.phase.mode with
  | insert => exact absurd hm h
  | normal => rw [leaveVisual_of_ne (by rw [hm]; decide), hm]
  | visual => rw [leaveVisual_of_visual hm]; rfl

theorem register_leaveVisual (w : View) : w.leaveVisual.register = w.register := by
  rw [leaveVisual]; split <;> rfl

/-- Leaving visual mode keeps a cursor that has been placed. -/
theorem document_leaveVisual_select (h : w.document.lines ≠ []) (p : Position) :
    (w.select (.caret p)).leaveVisual.document = (w.select (.caret p)).document := by
  rw [leaveVisual]; split
  · exact Document.select_caret_again h p
  · rfl

theorem mode_ne_of_normal (h : w.phase = .normal r) : w.phase.mode ≠ .visual := by
  simp [h, Phase.mode]

theorem phase_leaveVisual (h : w.phase = .normal .initial ∨ w.phase.mode = .visual) :
    w.leaveVisual.phase = .normal .initial := by
  rcases h with h | h
  · rw [leaveVisual_of_ne (mode_ne_of_normal h), h]
  · rw [leaveVisual_of_visual h]

/-- Leaving visual mode with nothing selected is as staying in normal mode. -/
theorem alike_leaveVisual (hphase : w.phase = .normal r)
    (hp : w.document.lines.InRange w.document.cursor) :
    w.leaveVisual.Alike (w.visual w.document.cursor w.document.cursor).leaveVisual := by
  rw [leaveVisual_of_ne (mode_ne_of_normal hphase), leaveVisual_of_visual rfl]
  refine ⟨rfl, ?_, rfl, rfl, by rw [hphase]; rfl⟩
  show w.document.cursor =
    w.document.lines.clamp (Span.between w.document.cursor w.document.cursor).start
  rw [Span.between_of_le (Position.le_refl _), Lines.clamp_of_inRange hp]

theorem alike_delete (hphase : w.phase = .normal r) (hw : w.document.WellFormed)
    (hcursor : w.document.cursor = p) (q : Position) :
    (w.delete (.between p q)).leaveVisual.Alike
      ((w.visual p q).delete (.between p q)).leaveVisual := by
  subst hcursor
  by_cases h : (Span.between w.document.cursor q).isEmpty
  · obtain rfl := Span.isEmpty_between.1 h
    rw [delete, if_pos h, delete, if_pos h]
    exact alike_leaveVisual hphase hw.2.2
  · generalize Span.between w.document.cursor q = s at h ⊢
    have hlines := Document.lines_erase_of_lines (lines_visual w w.document.cursor q) s
    have hdocument := Document.select_of_lines hlines (.caret s.start)
    have hagain := Document.select_caret_again (Document.wellFormed_erase hw s).1.1 s.start
    have hnormal : ((w.cut s).select (.caret s.start)).phase = .normal r := hphase
    rw [delete, if_neg h, delete, if_neg h, leaveVisual_of_ne (mode_ne_of_normal hnormal),
      leaveVisual_of_visual rfl]
    -- Both leave the same document, since selecting forgets what was selected before.
    have hsame : (((w.visual w.document.cursor q).cut s).select (.caret s.start)).document =
        ((w.cut s).select (.caret s.start)).document := hdocument
    refine .of_document ?_ rfl rfl (by rw [hnormal]; rfl)
    show _ = Document.select (View.document _) (.caret (View.document _).selection.span.start)
    rw [hsame]
    exact hagain.symm

theorem alike_yank (hphase : w.phase = .normal r) (hw : w.document.WellFormed)
    (hcursor : w.document.cursor = p) (q : Position) :
    (w.yank (.between p q)).leaveVisual.Alike
      ((w.visual p q).yank (.between p q)).leaveVisual := by
  subst hcursor
  by_cases h : (Span.between w.document.cursor q).isEmpty
  · obtain rfl := Span.isEmpty_between.1 h
    rw [yank, if_pos h, yank, if_pos h]
    exact alike_leaveVisual hphase hw.2.2
  · -- Only in normal mode yanking moves the cursor; leaving visual mode moves it just so.
    let x := w.store (.take (w.document.lines.slice (.between w.document.cursor q)) false)
    let s := Selection.caret (Span.between w.document.cursor q).start
    have hmode : x.phase.mode = .normal := congrArg Phase.mode hphase
    have hnormal : (x.select s).phase = .normal r := hphase
    have hyank : w.yank (.between w.document.cursor q) = x.select s := by
      rw [yank, if_neg h]; exact if_pos hmode
    have hdocument := Document.select_of_lines (lines_visual w w.document.cursor q) s
    rw [hyank, leaveVisual_of_ne (mode_ne_of_normal hnormal), yank, if_neg h, if_neg nofun,
      leaveVisual_of_visual rfl]
    exact .of_document hdocument.symm rfl rfl (by rw [hnormal]; rfl)

theorem alike_change (w : View) (s : Span) (p q : Position) :
    (w.change s).leaveVisual.Alike ((w.visual p q).change s).leaveVisual := by
  have hinsert (v : View) : (v.change s).leaveVisual = v.change s :=
    leaveVisual_of_ne (show Mode.insert ≠ .visual by decide)
  rw [hinsert, hinsert, change, change]
  by_cases h : s.isEmpty
  · rw [if_pos h, if_pos h]
    exact .of_document (Document.select_of_lines (lines_visual w p q) _).symm rfl rfl rfl
  · rw [if_neg h, if_neg h]
    have hlines := Document.lines_erase_of_lines (lines_visual w p q) s
    exact .of_document (Document.select_of_lines hlines _).symm rfl rfl rfl

end View

/-! ### Indentation -/

namespace Editor

variable {x y : Editor}

theorem lines_edit_congr (h : x.lines = y.lines) (es : List Edit) :
    (x.edit es).lines = (y.edit es).lines := by
  have hedit (e : Editor) : (e.edit es).lines = (e.buffer.document.applyAll es).lines :=
    congrArg (·.document.lines) (view_edit e es)
  rw [hedit, hedit]
  exact Document.lines_applyAll_of_lines h es

/-- Indenting looks at the lines and the settings only. -/
theorem lines_indent_congr (hlines : x.lines = y.lines) (hconfig : x.config = y.config)
    (t : Target) : (x.indent t).lines = (y.indent t).lines := by
  simp only [indent, lines_landOnText, hlines, hconfig]
  exact lines_edit_congr hlines _

theorem lines_dedent_congr (hlines : x.lines = y.lines) (hconfig : x.config = y.config)
    (t : Target) : (x.dedent t).lines = (y.dedent t).lines := by
  simp only [dedent, lines_landOnText, hlines, hconfig]
  exact lines_edit_congr hlines _

end Editor

end ModalEditor
