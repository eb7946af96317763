import ModalEditor.Interpreter
import ModalEditor.Proofs.Calls

/-!
# What commands do to the buffer

A command acts on an editor through calls on its buffer (`Editor.Acts`).  It leaves the settings
and the remembered commands alone, and which calls it makes does not depend on the mark of unsaved
changes.  All commands but the host commands make plain calls only (`Editor.acts_run`).
-/

namespace ModalEditor

/-- Remembering a command changes what is remembered for its mode, if it stands for itself. -/
theorem RepeatSlots.last_record_eq (s : RepeatSlots) (m n : Mode) (c : Command) : (s.record m c).last n =
    if c.isVirtual = false ∧ n = m ∧ m ≠ .insert then some c else s.last n := by
  unfold record
  cases c.isVirtual <;> cases m <;> cases n <;> rfl

namespace Workspace

/-- The workspace with the mark of unsaved changes put on or taken off its buffer. -/
def setDirty (w : Workspace) (v : Bool) : Workspace := { w with buffer := w.buffer.setDirty v }

theorem save_calls (w : Workspace) : ∃ cs : List Buffer.Call, ∀ v, (w.setDirty v).save =
    ({ w.save.1 with buffer := (w.buffer.setDirty v).calls cs }, w.save.2) := by
  cases hp : w.buffer.path with
  | none =>
    refine ⟨[], fun v => ?_⟩
    simp only [save, hp, show (w.setDirty v).buffer.path = _ from hp]; rfl
  | some p =>
    rcases hf : w.files.save p w.buffer.lines with ⟨files, _ | failure⟩
    · have hf' (v : Bool) : (w.setDirty v).files.save p (w.setDirty v).buffer.lines = _ := hf
      refine ⟨[.markSaved], fun v => ?_⟩
      simp only [save, hp, show (w.setDirty v).buffer.path = _ from hp, hf, hf', Buffer.calls_cons,
        Buffer.calls_nil, Buffer.call, Buffer.setDirty]
      rfl
    · have hf' (v : Bool) : (w.setDirty v).files.save p (w.setDirty v).buffer.lines = _ := hf
      refine ⟨[], fun v => ?_⟩
      simp only [save, hp, show (w.setDirty v).buffer.path = _ from hp, hf, hf']
      rfl

/-- A host command makes calls on the buffer, the same whether there are unsaved changes or not. -/
theorem runNamed_calls (w : Workspace) (name : String) (arguments : List String) :
    ∃ cs : List Buffer.Call, ∀ v, (w.setDirty v).runNamed name arguments =
      ({ (w.runNamed name arguments).1 with buffer := (w.buffer.setDirty v).calls cs },
        (w.runNamed name arguments).2) := by
  by_cases hundo : name = "undo"
  · exact ⟨[.undo], fun v => by simp only [runNamed, if_pos hundo]; rfl⟩
  by_cases hredo : name = "redo"
  · exact ⟨[.redo], fun v => by simp only [runNamed, if_neg hundo, if_pos hredo]; rfl⟩
  by_cases hreveal : name = "revealLine"
  · rcases ha : revealArguments arguments with failure | ⟨n, place⟩
    · exact ⟨[], fun v => by
        simp only [runNamed, if_neg hundo, if_neg hredo, if_pos hreveal, ha]; rfl⟩
    · exact ⟨[.scroll n place], fun v => by
        simp only [runNamed, if_neg hundo, if_neg hredo, if_pos hreveal, ha]; rfl⟩
  by_cases hwrite : name = "write"
  · obtain ⟨cs, hcs⟩ := save_calls w
    refine ⟨cs, fun v => ?_⟩
    simp only [runNamed, if_neg hundo, if_neg hredo, if_neg hreveal, if_pos hwrite, hcs]
    rcases w.save with ⟨w', _ | failure⟩ <;> rfl
  · exact ⟨[], fun v => by
      simp only [runNamed, if_neg hundo, if_neg hredo, if_neg hreveal, if_neg hwrite]; rfl⟩

theorem runBound_calls (names : List String) (w : Workspace) :
    ∃ cs : List Buffer.Call, ∀ v, runBound names (w.setDirty v) =
      ({ (runBound names w).1 with buffer := (w.buffer.setDirty v).calls cs },
        (runBound names w).2) := by
  induction names generalizing w with
  | nil => exact ⟨[], fun _ => rfl⟩
  | cons name names ih =>
    obtain ⟨cs, hcs⟩ := runNamed_calls w name []
    rcases hrun : w.runNamed name [] with ⟨w', _ | failure⟩
    · obtain ⟨ds, hds⟩ := ih w'
      rw [hrun] at hcs
      have hbuffer : w'.buffer = w.buffer.calls cs := by
        have h : w.runNamed name [] = _ := hcs w.buffer.dirty
        rw [hrun, Prod.mk.injEq] at h
        exact congrArg (·.buffer) h.1
      refine ⟨cs ++ ds, fun v => ?_⟩
      -- The first command may change the mark; the calls of the others are the same anyway.
      obtain ⟨x, hx⟩ := Buffer.calls_setDirty w.buffer cs v
      rw [← hbuffer] at hx
      have hstep : (w.setDirty v).runNamed name [] = (w'.setDirty x, none) := by
        rw [hcs, hx]; rfl
      simp only [runBound, hstep, hrun, hds, Buffer.calls_append, hx]
    · refine ⟨cs, fun v => ?_⟩
      simp only [runBound, hcs, hrun]

end Workspace

namespace Editor

open Buffer (Call)

variable {e : Editor} {f g : Editor → Editor} {host : Bool}

/-- The editor with the mark of unsaved changes put on or taken off. -/
def setDirty (e : Editor) (v : Bool) : Editor := e.mapBuffer fun b => b.setDirty v

/-- At `e`, the function `f` acts through calls on the buffer, plain ones unless `host` commands may
take part, and the calls are the same whether there are unsaved changes or not. -/
structure Acts (host : Bool) (f : Editor → Editor) (e : Editor) : Prop where
  config : (f e).config = e.config
  enabled : (f e).enabled = e.enabled
  slots : (f e).slots = e.slots
  calls : ∃ cs : List Call, (∀ c ∈ cs, c.isPlain ∨ host) ∧
    ∀ v, f (e.setDirty v) = { f e with buffer := (e.buffer.setDirty v).calls cs }

namespace Acts

theorem congr (h : Acts host g e) (hfg : ∀ v, f (e.setDirty v) = g (e.setDirty v)) :
    Acts host f e := by
  have he : f e = g e := hfg e.buffer.dirty
  obtain ⟨hconfig, henabled, hslots, cs, hcs, hcalls⟩ := h
  exact ⟨by rw [he, hconfig], by rw [he, henabled], by rw [he, hslots], cs, hcs, fun v => by
    rw [hfg, he, hcalls]⟩

protected theorem refl (e : Editor) : Acts host (fun x => x) e :=
  ⟨rfl, rfl, rfl, [], by simp, fun _ => rfl⟩

/-- The buffer afterwards, with and without the mark. -/
theorem exists_calls (h : Acts host f e) : ∃ cs : List Call, (∀ c ∈ cs, c.isPlain ∨ host) ∧
    (f e).buffer = e.buffer.calls cs ∧
    ∀ v, ∃ w, (e.buffer.setDirty v).calls cs = (f e).buffer.setDirty w ∧
      f (e.setDirty v) = (f e).setDirty w := by
  obtain ⟨-, -, -, cs, hcs, hcalls⟩ := h
  have hbuffer : (f e).buffer = e.buffer.calls cs := congrArg (·.buffer) (hcalls e.buffer.dirty)
  refine ⟨cs, hcs, hbuffer, fun v => ?_⟩
  obtain ⟨w, hw⟩ := Buffer.calls_setDirty e.buffer cs v
  rw [← hbuffer] at hw
  exact ⟨w, hw, by rw [hcalls, hw]; rfl⟩

protected theorem trans (hf : Acts host f e) (hg : Acts host g (f e)) :
    Acts host (fun x => g (f x)) e := by
  obtain ⟨cs, hcs, -, hv⟩ := hf.exists_calls
  obtain ⟨hconfig, henabled, hslots, ds, hds, hcalls⟩ := hg
  refine ⟨hconfig.trans hf.config, henabled.trans hf.enabled, hslots.trans hf.slots, cs ++ ds,
    by simpa [or_imp, forall_and] using ⟨hcs, hds⟩, fun v => ?_⟩
  obtain ⟨w, hw, hfw⟩ := hv v
  rw [hfw, hcalls, Buffer.calls_append, hw]

theorem wellFormed (h : Acts host f e) (hb : e.buffer.WellFormed) : (f e).buffer.WellFormed := by
  obtain ⟨cs, -, hcs, -⟩ := h.exists_calls
  exact hcs ▸ Buffer.wellFormed_calls hb cs

end Acts

/-! ### Calls and changes of mode -/

theorem acts_edit (es : List Edit) : Acts host (·.edit es) e :=
  ⟨rfl, rfl, rfl, [.edit es], by simp [Call.isPlain], fun _ => rfl⟩

theorem acts_setCursor (p : Position) : Acts host (·.setCursor p) e :=
  ⟨rfl, rfl, rfl, [.select (.caret p)], by simp [Call.isPlain], fun _ => rfl⟩

theorem acts_scrollLineTo (n : Nat) (place : ViewPlace) :
    Acts host (·.mapBuffer fun b => b.scrollLineTo n place) e :=
  ⟨rfl, rfl, rfl, [.scroll n place], by simp [Call.isPlain], fun _ => rfl⟩

theorem acts_report (cause : HostError) : Acts host (·.report cause) e :=
  ⟨rfl, rfl, rfl, [], by simp, fun _ => rfl⟩

theorem acts_moveTo (p : Position) : Acts host (·.moveTo p) e :=
  let s := e.selectionAt (e.lines.clamp p)
  ⟨rfl, rfl, rfl, [.select s, .reveal (e.buffer.select s).cursor.line], by simp [Call.isPlain],
    fun _ => rfl⟩

theorem acts_enterNormal : Acts host enterNormal e :=
  ⟨rfl, rfl, rfl, [.style .block], by simp [Call.isPlain], fun _ => rfl⟩

theorem acts_enterInsert : Acts host enterInsert e :=
  ⟨rfl, rfl, rfl, [.style .line], by simp [Call.isPlain], fun _ => rfl⟩

theorem acts_enterVisual (lineWise : Bool) : Acts host (·.enterVisual lineWise) e := by
  let anchor := e.phase.anchor?.getD
    (if lineWise then ⟨e.buffer.clampedCursor.line, 0⟩ else e.buffer.clampedCursor)
  have hphase : Acts host (fun x => { x.mapBuffer fun b => { b with cursorStyle := .block } with
      phase := .visual anchor lineWise .initial }) e :=
    ⟨rfl, rfl, rfl, [.style .block], by simp [Call.isPlain], fun _ => rfl⟩
  exact (hphase.trans (acts_moveTo e.buffer.clampedCursor)).congr fun _ => rfl

theorem acts_resumeNormal : Acts host resumeNormal e := by
  cases h : e.phase with
  | visual =>
    refine ((acts_setCursor e.buffer.selection.span.start).trans acts_enterNormal).congr fun v => ?_
    rw [resumeNormal, show (e.setDirty v).phase = _ from h]; rfl
  | normal =>
    refine acts_enterNormal.congr fun v => ?_
    rw [resumeNormal, show (e.setDirty v).phase = _ from h]
  | insert =>
    refine acts_enterNormal.congr fun v => ?_
    rw [resumeNormal, show (e.setDirty v).phase = _ from h]

theorem phase_resumeNormal (e : Editor) : e.resumeNormal.phase = .normal .initial := by
  cases h : e.phase <;> simp only [resumeNormal, h] <;> rfl

theorem mode_resumeNormal (e : Editor) : e.resumeNormal.mode = .normal :=
  congrArg Phase.mode e.phase_resumeNormal

theorem acts_store (c : Clipping) : Acts host (·.store c) e := by
  by_cases h : e.config.syncRegister
  · have hcopy : Acts host (fun x => { x.mapBuffer fun b =>
        { b with clipboard := b.clipboard.write c.encode } with register := some c }) e :=
      ⟨rfl, rfl, rfl, [.copy c.encode], by simp [Call.isPlain], fun _ => rfl⟩
    exact hcopy.congr fun v => by rw [store, if_pos (show (e.setDirty v).config.syncRegister from h)]
  · have hfill : Acts host (fun x => { x with register := some c }) e :=
      ⟨rfl, rfl, rfl, [], by simp, fun _ => rfl⟩
    exact hfill.congr fun v => by
      rw [store, if_neg (show ¬(e.setDirty v).config.syncRegister from h)]

/-! ### Actions -/

theorem acts_ite {c : Prop} [Decidable c] (hf : c → Acts host f e) (hg : ¬c → Acts host g e) :
    Acts host (fun x => if c then f x else g x) e := by
  by_cases h : c
  · exact (hf h).congr fun _ => if_pos h
  · exact (hg h).congr fun _ => if_neg h

theorem acts_move (m : Motion) : Acts host (·.move m) e :=
  (acts_moveTo (m.target e.lines e.separators e.buffer.clampedCursor)).congr fun _ => rfl

theorem acts_search (s : Search) (argument : Option Char) : Acts host (·.search s argument) e := by
  cases argument with
  | none => exact .refl e
  | some c => exact (acts_moveTo (s.target e.lines e.buffer.clampedCursor c)).congr fun _ => rfl

theorem acts_scroll (argument : Option Char) : Acts host (·.scroll argument) e := by
  cases h : argument.bind viewPlace? with
  | none => exact (Acts.refl e).congr fun v => by simp only [scroll, h]
  | some place =>
    exact (acts_scrollLineTo e.buffer.clampedCursor.line place).congr fun v => by
      simp only [scroll, h]; rfl

theorem acts_insertBefore : Acts host insertBefore e := acts_resumeNormal.trans acts_enterInsert

theorem acts_resumeAndMove (m : Motion) :
    Acts host (fun x => (x.resumeNormal.move m).enterInsert) e :=
  (acts_resumeNormal.trans (acts_move m)).trans acts_enterInsert

/-- Edits and a new place for the cursor, both chosen without regard to the mark. -/
theorem acts_editAndPlace (es : Editor → List Edit) (p : Editor → Position)
    (h : ∀ v, es (e.setDirty v) = es e ∧ p (e.setDirty v) = p e) :
    Acts host (fun x => (x.edit (es x)).setCursor (p x)) e :=
  ((acts_edit (es e)).trans (acts_setCursor (p e))).congr fun v => by rw [(h v).1, (h v).2]

theorem acts_openBelow : Acts host openBelow e :=
  (acts_resumeNormal.trans (acts_editAndPlace
    (fun x => [.insert (x.lines.lineEnd x.buffer.clampedCursor.line) ['\n']])
    (fun x => ⟨x.buffer.clampedCursor.line + 1, 0⟩) fun _ => ⟨rfl, rfl⟩)).trans acts_enterInsert

theorem acts_openAbove : Acts host openAbove e :=
  (acts_resumeNormal.trans (acts_editAndPlace
    (fun x => [.insert ⟨x.buffer.clampedCursor.line, 0⟩ ['\n']])
    (fun x => ⟨x.buffer.clampedCursor.line, 0⟩) fun _ => ⟨rfl, rfl⟩)).trans acts_enterInsert

theorem acts_toggleVisual (lineWise : Bool) : Acts host (·.toggleVisual lineWise) e :=
  (acts_ite (c := e.mode = .visual ∧ e.phase.isLineWise = lineWise)
    (fun _ => acts_resumeNormal) fun _ => acts_enterVisual lineWise).congr fun _ => rfl

theorem acts_deleteChar : Acts host deleteChar e := by
  cases h : e.cursorChar? with
  | none =>
    refine (Acts.refl e).congr fun v => ?_
    rw [deleteChar, show (e.setDirty v).cursorChar? = _ from h]
  | some s =>
    refine (((acts_store (.take (e.lines.slice s) false)).trans (acts_edit [.erase s])).trans
      (acts_setCursor s.start)).congr fun v => ?_
    rw [deleteChar, show (e.setDirty v).cursorChar? = _ from h]; rfl

theorem acts_replaceChar (argument : Option Char) : Acts host (·.replaceChar argument) e := by
  cases argument with
  | none => exact .refl e
  | some c =>
    cases h : e.cursorChar? with
    | none =>
      refine (Acts.refl e).congr fun v => ?_
      simp only [replaceChar, show (e.setDirty v).cursorChar? = _ from h]
    | some s =>
      refine ((acts_edit [.replace s [c]]).trans (acts_setCursor s.start)).congr fun v => ?_
      simp only [replaceChar, show (e.setDirty v).cursorChar? = _ from h]

theorem acts_paste (after : Bool) : Acts host (·.paste after) e := by
  cases h : e.pasteContent with
  | none =>
    refine (Acts.refl e).congr fun v => ?_
    rw [paste, show (e.setDirty v).pasteContent = _ from h]
  | some content =>
    have hbelow : Acts host _ e := acts_editAndPlace
      (fun x => [.insert (x.lines.lineEnd x.buffer.clampedCursor.line) ('\n' :: content.text)])
      (fun x => ⟨x.buffer.clampedCursor.line + 1, 0⟩) fun _ => ⟨rfl, rfl⟩
    have habove : Acts host _ e := acts_editAndPlace
      (fun x => [.insert ⟨x.buffer.clampedCursor.line, 0⟩ (content.text ++ ['\n'])])
      (fun x => ⟨x.buffer.clampedCursor.line, 0⟩) fun _ => ⟨rfl, rfl⟩
    have hat : Acts host _ e := acts_editAndPlace
      (fun x => [.insert x.buffer.clampedCursor content.text])
      (fun x => x.buffer.clampedCursor.advance content.text) fun _ => ⟨rfl, rfl⟩
    refine (acts_ite (c := content.lineWise)
      (fun _ => acts_ite (c := after) (fun _ => hbelow) fun _ => habove)
      fun _ => hat).congr fun v => ?_
    rw [paste, show (e.setDirty v).pasteContent = _ from h]

theorem acts_delete (t : Target) : Acts host (·.delete t) e := by
  let place (x : Editor) : Position :=
    if t.lineWise then ⟨min t.first x.lines.lastLine, 0⟩ else t.span.start
  have hplace (x : Editor) : Acts host (fun x => x.setCursor (place x)) x :=
    (acts_setCursor (place x)).congr fun _ => rfl
  exact (acts_ite (c := t.span.isEmpty) (fun _ => .refl e) fun _ =>
    ((acts_store (e.clipping t)).trans (acts_edit [.erase t.span])).trans (hplace _)).congr
      fun _ => rfl

theorem acts_yank (t : Target) : Acts host (·.yank t) e := by
  have hplace (x : Editor) : Acts host (fun x =>
      if !t.lineWise ∧ x.mode = .normal then x.setCursor t.span.start else x) x :=
    (acts_ite (c := !t.lineWise ∧ x.mode = .normal) (fun _ => acts_setCursor t.span.start)
      fun _ => .refl x).congr fun _ => rfl
  exact (acts_ite (c := t.span.isEmpty) (fun _ => .refl e) fun _ =>
    (acts_store (e.clipping t)).trans (hplace _)).congr fun _ => rfl

theorem acts_change (t : Target) : Acts host (·.change t) e := by
  let s := if t.lineWise then Span.between ⟨t.first, 0⟩ (e.lines.lineEnd t.last) else t.span
  have hstore : Acts host (fun x => if t.span.isEmpty then x else x.store (e.clipping t)) e :=
    acts_ite (fun _ => .refl e) fun _ => acts_store _
  have hedit (x : Editor) : Acts host (fun x => if s.isEmpty then x else x.edit [.erase s]) x :=
    acts_ite (fun _ => .refl x) fun _ => acts_edit _
  exact ((hstore.trans (hedit _)).trans
    ((acts_resumeNormal.trans (acts_setCursor s.start)).trans acts_enterInsert)).congr fun _ => rfl

theorem acts_landOnText (n : Nat) : Acts host (·.landOnText n) e :=
  (acts_ite (c := e.mode = .normal)
    (fun _ => acts_setCursor ⟨n, ((e.lines.line n).takeWhile isBlank).length⟩)
    fun _ => .refl e).congr fun _ => rfl

theorem acts_indent (t : Target) : Acts host (·.indent t) e := by
  let step := List.replicate e.config.indentWidth ' '
  let filled := t.lineNumbers.filter fun n => 0 < e.lines.lineLength n
  exact ((acts_edit (filled.map fun n => .insert ⟨n, 0⟩ step)).trans
    (acts_landOnText t.first)).congr fun _ => rfl

theorem acts_dedent (t : Target) : Acts host (·.dedent t) e := by
  let strip n := indentation e.config.indentWidth (e.lines.line n)
  let indented := t.lineNumbers.filter fun n => 0 < strip n
  exact ((acts_edit (indented.map fun n => .erase (.between ⟨n, 0⟩ ⟨n, strip n⟩))).trans
    (acts_landOnText t.first)).congr fun _ => rfl

/-! ### Running -/

/-- As `Acts`, for a function that can fail; whether it does, does not depend on the mark either. -/
def Runs (host : Bool) (f : Editor → Editor × Option HostError) (e : Editor) : Prop :=
  Acts host (fun x => (f x).1) e ∧ ∀ v, (f (e.setDirty v)).2 = (f e).2

theorem Acts.runs (h : Acts host f e) {f' : Editor → Editor × Option HostError}
    (hf : ∀ x, f' x = (f x, none)) : Runs host f' e :=
  ⟨h.congr fun v => by rw [hf], fun v => by rw [hf, hf]⟩

theorem runs_runBound (names : List String) : Runs true (·.runBound names) e := by
  obtain ⟨cs, hcs⟩ := e.toWorkspace.runBound_calls names
  have hrun (v : Bool) : (e.setDirty v).runBound names =
      ({ (e.runBound names).1 with buffer := (e.buffer.setDirty v).calls cs },
        (e.runBound names).2) := by
    rw [runBound, show (e.setDirty v).toWorkspace.runBound names = _ from hcs v]; rfl
  refine ⟨⟨rfl, rfl, rfl, cs, by simp, fun v => ?_⟩, fun v => ?_⟩
  · exact congrArg Prod.fst (hrun v)
  · show ((e.setDirty v).runBound names).2 = _
    rw [hrun]

variable {replay : Editor → Editor}

theorem runs_action (p : Plan) (hr : Acts host replay e)
    (hh : host = false → ∀ names, p.operator.action ≠ .hostCommands names) :
    Runs host (Action.run replay p) e := by
  cases h : p.operator.action with
  | move m => exact (acts_move m).runs fun x => by simp only [Action.run, h]
  | search s => exact (acts_search s p.argument).runs fun x => by simp only [Action.run, h]
  | scroll => exact (acts_scroll p.argument).runs fun x => by simp only [Action.run, h]
  | insertBefore => exact acts_insertBefore.runs fun x => by simp only [Action.run, h]
  | insertAfter =>
    exact (acts_resumeAndMove .right).runs fun x => by simp only [Action.run, h]; rfl
  | insertLineStart =>
    exact (acts_resumeAndMove .lineStart).runs fun x => by simp only [Action.run, h]; rfl
  | insertLineEnd =>
    exact (acts_resumeAndMove .lineEnd).runs fun x => by simp only [Action.run, h]; rfl
  | openBelow => exact acts_openBelow.runs fun x => by simp only [Action.run, h]
  | openAbove => exact acts_openAbove.runs fun x => by simp only [Action.run, h]
  | visual lineWise =>
    exact (acts_toggleVisual lineWise).runs fun x => by simp only [Action.run, h]
  | deleteChar => exact acts_deleteChar.runs fun x => by simp only [Action.run, h]
  | pasteAfter => exact (acts_paste true).runs fun x => by simp only [Action.run, h]
  | pasteBefore => exact (acts_paste false).runs fun x => by simp only [Action.run, h]
  | delete => exact (acts_delete p.target).runs fun x => by simp only [Action.run, h]
  | yank => exact (acts_yank p.target).runs fun x => by simp only [Action.run, h]
  | change => exact (acts_change p.target).runs fun x => by simp only [Action.run, h]
  | indent => exact (acts_indent p.target).runs fun x => by simp only [Action.run, h]
  | dedent => exact (acts_dedent p.target).runs fun x => by simp only [Action.run, h]
  | replaceChar => exact (acts_replaceChar p.argument).runs fun x => by simp only [Action.run, h]
  | repeatLast => exact hr.runs fun x => by simp only [Action.run, h]
  | hostCommands names =>
    have hhost : host = true := by
      cases host
      · exact absurd h (hh rfl names)
      · rfl
    subst hhost
    have hbound := runs_runBound (e := e) names
    simpa only [Runs, Action.run, h] using hbound

theorem runs_runPlan (p : Plan) (hr : Acts host replay e)
    (hh : host = false → ∀ names, p.operator.action ≠ .hostCommands names) :
    Runs host (runPlan replay p) e := by
  obtain ⟨hacts, hfailure⟩ := runs_action p hr hh
  have hleave (x : Editor) : Acts host (fun x =>
      if p.operator.kind = .edit ∧ x.mode = .visual then x.resumeNormal else x) x :=
    (acts_ite (c := p.operator.kind = .edit ∧ x.mode = .visual) (fun _ => acts_resumeNormal)
      fun _ => .refl x).congr fun _ => rfl
  exact ⟨hacts.trans (hleave _), hfailure⟩

/-- The command runs no host commands, unless they may take part. -/
def Allows (host : Bool) (config : Config) (c : Command) : Prop :=
  host = false → config.hostCommands? c.operator = none

theorem operator_of_plan? {c : Command} {p : Plan} (h : e.plan? c = some p) :
    e.config.operator? c.operator = some p.operator := by
  unfold plan? at h
  cases hop : e.config.operator? c.operator with
  | none => simp [hop] at h
  | some op =>
    simp only [hop] at h
    split at h
    · cases h; rfl
    · split at h
      · obtain ⟨t, -, rfl⟩ := Option.map_eq_some_iff.1 h; rfl
      · cases h; rfl

theorem action_ne_hostCommands {config : Config} {c : Char} {op : Operator}
    (h : config.hostCommands? c = none) (hop : config.operator? c = some op)
    (names : List String) : op.action ≠ .hostCommands names := by
  have hop : Operator.builtin? c = some op := by simpa only [Config.operator?, h] using hop
  unfold Operator.builtin? at hop
  split at hop <;> cases hop <;> simp [Operator.moving]

/-- Repeating a command acts through calls if each single run of it does. -/
theorem acts_repeatPlan {c : Command} (start : Mode) (hc : Allows host e.config c)
    (hr : ∀ x : Editor, x.config = e.config → x.slots = e.slots → Acts host replay x)
    (n : Nat) {p : Plan} (hp : e.plan? c = some p) :
    Acts host (repeatPlan replay c start n p) e := by
  induction n generalizing p e with
  | zero => exact .refl e
  | succ n ih =>
    obtain ⟨hacts, hfailure⟩ := runs_runPlan p (hr e rfl rfl) fun hh =>
      action_ne_hostCommands (hc hh) (operator_of_plan? hp)
    obtain ⟨_, -, -, hv⟩ := hacts.exists_calls
    rcases hrun : runPlan replay p e with ⟨e', _ | failure⟩
    · rw [hrun] at hfailure hv
      -- With the mark on or off, the first run ends alike.
      have hfirst (v : Bool) : ∃ w, runPlan replay p (e.setDirty v) = (e'.setDirty w, none) := by
        obtain ⟨w, -, hw⟩ := hv v
        exact ⟨w, Prod.ext hw (hfailure v)⟩
      by_cases hm : e'.mode = start
      · cases hq : e'.plan? c with
        | none =>
          refine hacts.congr fun v => ?_
          obtain ⟨w, hw⟩ := hfirst v
          simp only [repeatPlan, hw, if_pos (show (e'.setDirty w).mode = start from hm),
            show (e'.setDirty w).plan? c = _ from hq]
        | some q =>
          -- Settings and slots stay, so the command and what it repeats are still allowed.
          have hconfig := hacts.config
          have hslots := hacts.slots
          have hrest := ih (e := (runPlan replay p e).1) (by rwa [hconfig])
            (fun x hx hx' => hr x (hx.trans hconfig) (hx'.trans hslots)) (by rwa [hrun])
          refine (hacts.trans hrest).congr fun v => ?_
          obtain ⟨w, hw⟩ := hfirst v
          simp only [repeatPlan, hw, if_pos (show (e'.setDirty w).mode = start from hm),
            show (e'.setDirty w).plan? c = _ from hq]
      · refine hacts.congr fun v => ?_
        obtain ⟨w, hw⟩ := hfirst v
        simp only [repeatPlan, hw, if_neg (show ¬(e'.setDirty w).mode = start from hm)]
    · rw [hrun] at hfailure
      refine (hacts.trans (acts_report failure)).congr fun v => ?_
      have hfirst : runPlan replay p (e.setDirty v) = (_, some failure) :=
        Prod.ext rfl (hfailure v)
      rw [repeatPlan, hfirst]

theorem acts_runWith {c : Command} (hc : Allows host e.config c)
    (hr : ∀ x : Editor, x.config = e.config → x.slots = e.slots → Acts host replay x) :
    Acts host (fun x => runWith replay x c) e := by
  cases hp : e.plan? c with
  | none =>
    refine (Acts.refl e).congr fun v => ?_
    rw [runWith, show (e.setDirty v).plan? c = _ from hp]
  | some p =>
    refine (acts_repeatPlan e.mode hc hr p.count hp).congr fun v => ?_
    rw [runWith, show (e.setDirty v).plan? c = _ from hp]; rfl

/-- What repeating may run is allowed. -/
def SlotsAllow (host : Bool) (e : Editor) : Prop :=
  ∀ m c, e.slots.last m = some c → Allows host e.config c

theorem acts_replayLast (h : SlotsAllow host e) : Acts host replayLast e := by
  cases hs : e.slots.last e.mode with
  | none =>
    refine (Acts.refl e).congr fun v => ?_
    rw [replayLast, show (e.setDirty v).slots.last (e.setDirty v).mode = _ from hs]
  | some c =>
    refine (acts_runWith (h _ c hs) fun x _ _ => .refl x).congr fun v => ?_
    rw [replayLast, show (e.setDirty v).slots.last (e.setDirty v).mode = _ from hs]; rfl

/-- **Commands act through calls.**  The calls are plain, unless the command or one that it repeats
runs host commands. -/
theorem acts_run {c : Command} (hc : Allows host e.config c) (hs : SlotsAllow host e) :
    Acts host (·.run c) e :=
  acts_runWith hc fun x hconfig hslots => acts_replayLast fun m d hd => by
    rw [hconfig]; exact hs m d (by rwa [← hslots])

/-! ### Typing in insert mode -/

theorem acts_typeText (text : List Char) :
    Acts host (·.mapBuffer fun b => b.typeText text) e :=
  (acts_editAndPlace (fun x => [.insert x.buffer.cursor text])
    (fun x => x.buffer.cursor.advance text) fun _ => ⟨rfl, rfl⟩).congr fun _ => rfl

theorem acts_backspace : Acts host (·.mapBuffer Buffer.backspace) e := by
  let stop := e.buffer.clampedCursor
  let f (p : Position) (x : Editor) : Editor := x.edit [.erase (.between p stop)]
  refine (acts_ite (c := 0 < stop.column)
    (fun _ => (acts_edit _ : Acts host (f ⟨stop.line, stop.column - 1⟩) e))
    fun _ => acts_ite (c := 0 < stop.line)
      (fun _ => (acts_edit _ : Acts host (f (e.lines.lineEnd (stop.line - 1))) e))
      fun _ => .refl e).congr fun v => ?_
  have hstop : (e.setDirty v).buffer.clampedCursor = stop := rfl
  simp only [mapBuffer, Buffer.backspace, hstop]
  split
  · rfl
  · split <;> rfl

/-- Take back the escape sequence and return to normal mode, with the undo group still open. -/
def takeBack (e : Editor) : Editor :=
  let stop := e.buffer.cursor
  let start := e.lines.stepBack stop e.escape.length
  ((e.edit [.erase (.between start stop)]).setCursor start).resumeNormal

theorem acts_takeBack : Acts host takeBack e :=
  (acts_editAndPlace (fun x => [.erase (.between
      (x.lines.stepBack x.buffer.cursor x.escape.length) x.buffer.cursor)])
    (fun x => x.lines.stepBack x.buffer.cursor x.escape.length)
    fun _ => ⟨rfl, rfl⟩).trans acts_resumeNormal

/-! ### Dispatching -/

/-- The editor as a dispatched command finds it: the command is remembered if it can be repeated,
and an undo group has begun. -/
def prepare (e : Editor) (c : Command) : Editor :=
  (if e.isEdit c then e.record e.mode c else e).clearMessage.mapBuffer Buffer.beginUndoGroup

theorem dispatch_eq (e : Editor) (c : Command) : e.dispatch c =
    let e := (e.prepare c).run c
    if e.mode = .insert then e else e.mapBuffer Buffer.endUndoGroup := rfl

theorem prepare_eq (e : Editor) (c : Command) : e.prepare c =
    { e with
      buffer := e.buffer.beginUndoGroup
      slots := if e.isEdit c then e.slots.record e.mode c else e.slots
      message := none } := by
  unfold prepare
  by_cases h : e.isEdit c
  · rw [if_pos h, if_pos h]; rfl
  · rw [if_neg h, if_neg h]; rfl

theorem config_prepare (e : Editor) (c : Command) : (e.prepare c).config = e.config := by
  rw [prepare_eq]

theorem mode_prepare (e : Editor) (c : Command) : (e.prepare c).mode = e.mode := by
  rw [prepare_eq]
  rfl

end Editor

end ModalEditor
