import ModalEditor.Proofs.Repetition

/-!
# The anchor of a selection

In visual mode the selection is determined by the anchor and the cursor (`Editor.Selects`): it runs
from the one to the other, or over whole lines, with the cursor at the far end.  Moving keeps it so,
whatever the motion, since the selection is made anew from the anchor each time; what does not move
ends visual mode.

The anchor is set when visual mode is entered, and it stays until visual mode ends
(`Session.selection_of_anchor`).
-/

namespace ModalEditor

namespace Editor

variable {e e' x : Editor} {a : Position} {replay : Editor → Editor} {d : Command} {op : Operator}
variable {p : Plan}

/-- In visual mode with anchor `a`, the selection is the one that the cursor gives. -/
structure Selects (a : Position) (e : Editor) : Prop where
  anchor : e.phase.anchor? = some a
  inRange : e.lines.InRange a
  selection : e.buffer.selection = e.selectionAt e.buffer.cursor

theorem mode_eq_visual_iff : e.mode = .visual ↔ ∃ a, e.phase.anchor? = some a := by
  unfold mode
  cases e.phase <;> simp [Phase.mode, Phase.anchor?]

theorem mode_of_anchor? (h : e.phase.anchor? = some a) : e.mode = .visual :=
  mode_eq_visual_iff.2 ⟨a, h⟩

theorem Selects.isVisual (h : e.Selects a) : e.mode = .visual := mode_of_anchor? h.anchor

theorem anchor?_dropPending (p : Phase) : p.dropPending.anchor? = p.anchor? := by
  cases p <;> rfl

/-- What a place selects depends on the lines, and on the phase but for the keys read so far. -/
theorem selectionAt_congr (hphase : x.phase.dropPending = e.phase.dropPending)
    (hlines : x.lines = e.lines) (p : Position) : x.selectionAt p = e.selectionAt p := by
  unfold selectionAt
  rw [hlines]
  revert hphase
  cases x.phase <;> cases e.phase <;> intro hphase <;> cases hphase
  · rfl
  · rfl
  · next lineWise _ _ => cases lineWise <;> rfl

theorem Selects.of_eq (h : e.Selects a) (hphase : x.phase.dropPending = e.phase.dropPending)
    (hdocument : x.buffer.document = e.buffer.document) : x.Selects a := by
  obtain ⟨hanchor, hrange, hselection⟩ := h
  have hlines : x.lines = e.lines := congrArg Document.lines hdocument
  refine ⟨?_, by rwa [hlines], ?_⟩
  · rw [← hanchor, ← anchor?_dropPending x.phase, hphase, anchor?_dropPending]
  · rw [selectionAt_congr hphase hlines, Buffer.selection, Buffer.cursor, hdocument]
    exact hselection

/-! ### Moving -/

theorem inRange_lineStart {ls : Lines} {p : Position} (h : ls.InRange p) :
    ls.InRange ⟨p.line, 0⟩ := ⟨h.1, Nat.zero_le _⟩

/-- The selection that a place in the text gives lies in the text. -/
theorem clamp_selectionAt {q : Position} (ha : e.phase.anchor? = some a)
    (hrange : e.lines.InRange a) (hq : e.lines.InRange q) :
    (e.selectionAt q).map e.lines.clamp = e.selectionAt q := by
  have hmap {p r : Position} (hp : e.lines.InRange p) (hr : e.lines.InRange r) :
      Selection.map e.lines.clamp ⟨p, r⟩ = ⟨p, r⟩ := by
    rw [Selection.map, Lines.clamp_of_inRange hp, Lines.clamp_of_inRange hr]
  unfold selectionAt
  cases hp : e.phase with
  | normal | insert =>
    rw [hp] at ha
    cases ha
  | visual b lineWise r =>
    rw [hp] at ha
    obtain rfl : b = a := Option.some.inj ha
    cases lineWise with
    | false => exact hmap hrange hq
    | true =>
      dsimp only
      split
      · exact hmap (Lines.inRange_lineEnd hrange) (inRange_lineStart hq)
      · exact hmap (inRange_lineStart hrange) (Lines.inRange_lineEnd hq)

/-- A selection is the one that its own cursor gives. -/
theorem selectionAt_active (q : Position) (hq : e.phase.anchor?.isSome) :
    e.selectionAt (e.selectionAt q).active = e.selectionAt q := by
  unfold selectionAt
  cases hp : e.phase with
  | normal | insert =>
    rw [hp] at hq
    cases hq
  | visual b lineWise r =>
    cases lineWise with
    | false => rfl
    | true =>
      dsimp only
      by_cases h : q.line < b.line
      · simp only [if_pos h]
      · have hline : (e.lines.lineEnd q.line).line = q.line := rfl
        simp only [if_neg h, hline]

/-- Moving selects from the anchor to where it leads. -/
theorem selects_moveTo (ha : e.phase.anchor? = some a) (hrange : e.lines.InRange a)
    (p : Position) : (e.moveTo p).Selects a := by
  have hne : e.lines ≠ [] := by
    rintro hnil
    obtain ⟨hline, -⟩ := hrange
    rw [hnil] at hline
    cases hline
  have hq := Lines.inRange_clamp hne p
  have hview := view_moveTo e p
  have hselection : (e.moveTo p).buffer.selection = e.selectionAt (e.lines.clamp p) :=
    (congrArg (·.document.selection) hview).trans (clamp_selectionAt ha hrange hq)
  have hlines : (e.moveTo p).lines = e.lines := congrArg (·.document.lines) hview
  have hat (q : Position) : (e.moveTo p).selectionAt q = e.selectionAt q := by
    unfold selectionAt
    rw [hlines]
    rfl
  refine ⟨ha, by rwa [hlines], ?_⟩
  rw [Buffer.cursor, Document.cursor, ← Buffer.selection, hselection, hat]
  exact (selectionAt_active _ (by rw [ha]; rfl)).symm

theorem Selects.moveTo (h : e.Selects a) (p : Position) : (e.moveTo p).Selects a :=
  selects_moveTo h.anchor h.inRange p

theorem Selects.search (h : e.Selects a) (s : Search) (argument : Option Char) :
    (e.search s argument).Selects a := by
  cases argument with
  | none => exact h
  | some c => exact h.moveTo _

theorem Selects.scroll (h : e.Selects a) (argument : Option Char) :
    (e.scroll argument).Selects a := by
  unfold Editor.scroll
  split
  · exact h
  · exact h.of_eq rfl rfl

theorem enterVisual_eq {lineWise : Bool} (ha : e.phase.anchor?.getD
      (if lineWise then ⟨e.buffer.clampedCursor.line, 0⟩ else e.buffer.clampedCursor) = a) :
    e.enterVisual lineWise = Editor.moveTo
      { e.mapBuffer fun b => { b with cursorStyle := .block } with
        phase := .visual a lineWise .initial } e.buffer.clampedCursor := by
  subst ha
  rfl

theorem Selects.enterVisual (h : e.Selects a) (lineWise : Bool) :
    (e.enterVisual lineWise).Selects a := by
  rw [enterVisual_eq (show e.phase.anchor?.getD _ = a by rw [h.anchor]; rfl)]
  refine selects_moveTo ?_ ?_ _
  · rfl
  · exact h.inRange

/-- Where the anchor is set when visual mode is entered. -/
def entryAnchor (e : Editor) (lineWise : Bool) : Position :=
  if lineWise then ⟨e.buffer.cursor.line, 0⟩ else e.buffer.cursor

/-- Entering visual mode sets the anchor. -/
theorem selects_enterVisual (ha : e.phase.anchor? = none) (hrange : e.lines.InRange e.buffer.cursor)
    (lineWise : Bool) : (e.enterVisual lineWise).Selects (e.entryAnchor lineWise) := by
  have hcursor : e.buffer.clampedCursor = e.buffer.cursor := Lines.clamp_of_inRange hrange
  have hentry : e.lines.InRange (e.entryAnchor lineWise) := by
    unfold entryAnchor
    split
    · exact inRange_lineStart hrange
    · exact hrange
  rw [enterVisual_eq (show _ = e.entryAnchor lineWise by rw [ha, hcursor]; rfl)]
  refine selects_moveTo ?_ ?_ _
  · rfl
  · exact hentry

/-! ### Commands in visual mode -/

theorem mode_toggleVisual (h : e.Selects a) (lineWise : Bool)
    (hm : (e.toggleVisual lineWise).mode = .visual) : (e.toggleVisual lineWise).Selects a := by
  unfold toggleVisual at hm ⊢
  split
  · next hc =>
    rw [if_pos hc, mode_resumeNormal] at hm
    cases hm
  · exact h.enterVisual lineWise

/-- What ends in visual mode still selects from the anchor. -/
theorem Selects.runPlan (h : e.Selects a) (hkind : p.operator.kind = p.operator.action.kind)
    (hrepeat : p.operator.action ≠ .repeatLast) (hm : (runPlan replay p e).1.mode = .visual) :
    (runPlan replay p e).1.Selects a := by
  rw [Editor.runPlan] at hm ⊢
  dsimp only at hm ⊢
  by_cases hedit : p.operator.kind = .edit
  · -- An edit does not end in visual mode.
    split at hm
    · rw [mode_resumeNormal] at hm
      cases hm
    · next hc => exact absurd ⟨hedit, hm⟩ hc
  rw [if_neg fun hc => hedit hc.1] at hm ⊢
  rw [hkind] at hedit
  unfold Action.run at hm ⊢
  cases haction : p.operator.action with
  | move m => exact h.moveTo _
  | search s => exact h.search s _
  | scroll => exact h.scroll _
  | insertBefore | insertAfter | insertLineStart | insertLineEnd =>
    rw [haction] at hm
    cases hm
  | visual lineWise =>
    rw [haction] at hm
    exact mode_toggleVisual h lineWise hm
  | repeatLast => exact absurd haction hrepeat
  | openBelow | openAbove | deleteChar | pasteAfter | pasteBefore | delete | yank | change | indent
  | dedent | replaceChar | hostCommands =>
    rw [haction] at hedit
    exact absurd rfl hedit

theorem Selects.dispatch (h : e.Selects a) (hop : e.config.operator? d.operator = some op)
    (hrepeat : op.action ≠ .repeatLast) (hm : (e.dispatch d).mode = .visual) :
    (e.dispatch d).Selects a := by
  refine dispatch_induct (motive := fun x => x.mode = .visual → x.Selects a) hop
    (fun x _ hx hm => (hx hm).of_eq rfl rfl) (fun x p hx hxm hp hm => ?_)
    (fun x hx hm => (hx hm).of_eq rfl rfl) (fun _ => ?_) hm
  · have hkind : p.operator.kind = p.operator.action.kind := by
      rw [hp]
      exact (Config.operator?_kind hop).1
    rw [← hp] at hrepeat
    exact (hx (hxm.trans h.isVisual)).runPlan hkind hrepeat hm
  · exact h.of_eq (by rw [prepare_eq]) (by rw [prepare_eq]; rfl)

/-! ### Entering visual mode -/

/-- Only one action enters visual mode. -/
theorem mode_action (hm : e.mode ≠ .visual) (hrepeat : p.operator.action ≠ .repeatLast)
    (hvisual : ∀ lineWise, p.operator.action ≠ .visual lineWise) :
    (Action.run replay p e).1.mode ≠ .visual := by
  by_cases hkeeps : p.operator.action.keepsMode = true
  · rw [(sameMode_action hkeeps).mode]
    exact hm
  · unfold Action.run
    cases haction : p.operator.action with
    | insertBefore | insertAfter | insertLineStart | insertLineEnd | openBelow | openAbove
    | change => exact fun h => by cases h
    | visual lineWise => exact absurd haction (hvisual lineWise)
    | repeatLast => exact absurd haction hrepeat
    | _ =>
      rw [haction] at hkeeps
      exact absurd rfl hkeeps

theorem mode_runPlan (h : (Action.run replay p e).1.mode ≠ .visual) :
    (runPlan replay p e).1.mode ≠ .visual := by
  rw [runPlan]
  dsimp only
  rw [if_neg fun hc => h hc.2]
  exact h

/-- What a command selects from normal mode, it selects from where the cursor was. -/
theorem selects_dispatch (hm : e.mode = .normal) (hrange : e.lines.InRange e.buffer.cursor)
    (hop : e.config.operator? d.operator = some op) (hrepeat : op.action ≠ .repeatLast)
    (hvisual : (e.dispatch d).mode = .visual) :
    (e.dispatch d).Selects (e.entryAnchor (e.dispatch d).phase.isLineWise) := by
  by_cases henter : ∃ lineWise, op.action = .visual lineWise
  · obtain ⟨lineWise, henter⟩ := henter
    -- As long as the mode is normal, nothing has happened yet.
    let Enters (x : Editor) : Prop := (x.mode = .normal → x.view = e.view) ∧
      (x.mode = .visual → x.Selects (e.entryAnchor lineWise) ∧ x.phase.isLineWise = lineWise)
    have hkeep {x y : Editor} (hview : y.view = x.view) (hx : Enters x) : Enters y := by
      have hphase : y.phase = x.phase := congrArg View.phase hview
      have hmode : y.mode = x.mode := congrArg Phase.mode hphase
      refine ⟨fun hy => hview.trans (hx.1 (hmode.symm.trans hy)), fun hy => ?_⟩
      obtain ⟨hselects, hline⟩ := hx.2 (hmode.symm.trans hy)
      rw [hphase]
      exact ⟨hselects.of_eq (by rw [hphase]) (congrArg View.document hview), hline⟩
    have hall : Enters (e.dispatch d) := by
      refine dispatch_induct hop
        (fun x cause hx => hkeep (show (x.report cause).view = x.view from rfl) hx)
        (fun x p hx hxm hp => ?_)
        (fun x hx => hkeep (show (x.mapBuffer Buffer.endUndoGroup).view = x.view from rfl) hx)
        (hkeep (view_prepare d) ?_)
      · have hxnormal : x.mode = .normal := hxm.trans hm
        have hxview := hx.1 hxnormal
        have hkind : p.operator.kind ≠ .edit := by
          rw [hp, (Config.operator?_kind hop).1, henter]
          simp [Action.kind]
        have haction : Action.run replayLast p x = (x.enterVisual lineWise, none) := by
          rw [Action.run, hp, henter]
          show (x.toggleVisual lineWise, none) = _
          rw [toggleVisual, if_neg (by rw [hxnormal]; simp)]
        have hrun : (runPlan replayLast p x).1 = x.enterVisual lineWise := by
          rw [runPlan, haction]
          dsimp only
          rw [if_neg fun hc => hkind hc.1]
        rw [hrun]
        refine ⟨fun hc => ?_, fun _ => ⟨?_, rfl⟩⟩
        · cases hc
        · have hcursor : x.buffer.cursor = e.buffer.cursor := congrArg (·.document.cursor) hxview
          have hlines : x.lines = e.lines := congrArg (·.document.lines) hxview
          have hanchor : x.phase.anchor? = none := by
            refine Option.eq_none_iff_forall_not_mem.2 fun b hb => ?_
            rw [mode_of_anchor? hb] at hxnormal
            cases hxnormal
          have hselects := selects_enterVisual hanchor (by rwa [hcursor, hlines]) lineWise
          rwa [entryAnchor, hcursor] at hselects
      · refine ⟨fun _ => rfl, fun hc => ?_⟩
        rw [hm] at hc
        cases hc
    obtain ⟨hselects, hline⟩ := hall.2 hvisual
    rwa [hline]
  · -- All other commands keep out of visual mode.
    refine absurd hvisual (dispatch_induct (motive := fun x => x.mode ≠ .visual) hop
      (fun x _ hx => hx) (fun x p hx _ hp => mode_runPlan ?_) (fun x hx => hx) ?_)
    · rw [← hp] at hrepeat henter
      exact mode_action hx hrepeat fun lineWise h => henter ⟨lineWise, h⟩
    · rw [prepare_eq]
      show e.mode ≠ .visual
      rw [hm]
      decide

/-! ### Steps -/

/-- With an anchor after a step, there is the selection it gives; and the anchor was there before,
or the step has left normal mode. -/
theorem Step.selects (hstep : e.Step e') (hwf : e.buffer.WellFormed) (hversed : e.Versed)
    (h : ∀ b, e.enabled = true → e.phase.anchor? = some b → e.Selects b)
    (henabled : e'.enabled = true) (ha : e'.phase.anchor? = some a) :
    e'.Selects a ∧ e.enabled = true ∧ (e.phase.anchor? = some a ∨
      e.mode = .normal ∧ a = e.entryAnchor e'.phase.isLineWise) := by
  have hresume (x : Editor) : x.resumeNormal.phase.anchor? ≠ some a := by
    rw [phase_resumeNormal]
    exact nofun
  cases hstep with
  | key he k =>
    let x : Editor := { e with phase := e.phase.dropPending }
    have hxanchor : x.phase.anchor? = e.phase.anchor? := anchor?_dropPending e.phase
    have hxmode : x.mode = e.mode := mode_dropPending e
    cases hm : e.mode with
    | insert =>
      obtain ⟨typed, htype⟩ := exists_typeKey_eq_typeInserted hm k
      rw [htype] at ha
      rcases phase_typeInserted e typed k with hphase | ⟨typed', hphase⟩
      · rw [hphase] at ha
        cases ha
      · rw [hphase] at ha
        cases ha
    | visual =>
      obtain ⟨b, hb⟩ := mode_eq_visual_iff.1 hm
      have hselects : (e.typeKey k).Selects b := by
        rcases hversed.typeKey_split (by rw [hm]; decide) k with
          ⟨hdocument, hphase⟩ | ⟨d, op, hop, hrepeat, heq⟩
        · exact (h b he hb).of_eq hphase hdocument
        · have hx : x.Selects b := (h b he hb).of_eq (nothingRead_dropPending e) rfl
          have hvisual := mode_of_anchor? ha
          rw [heq] at hvisual ⊢
          exact hx.dispatch hop hrepeat hvisual
      obtain rfl : b = a := Option.some.inj (hselects.anchor.symm.trans ha)
      exact ⟨hselects, he, .inl hb⟩
    | normal =>
      rcases hversed.typeKey_split (by rw [hm]; decide) k with
        ⟨-, hphase⟩ | ⟨d, op, hop, hrepeat, heq⟩
      · have hnormal : (e.typeKey k).mode = .normal := by
          rw [← mode_dropPending, hphase, mode_dropPending, hm]
        rw [mode_of_anchor? ha] at hnormal
        cases hnormal
      · have hvisual := mode_of_anchor? ha
        rw [heq] at hvisual ha ⊢
        have hselects := selects_dispatch (hxmode.trans hm) hwf.document.2.2 hop hrepeat hvisual
        obtain rfl := Option.some.inj (hselects.anchor.symm.trans ha)
        exact ⟨hselects, he, .inr ⟨rfl, rfl⟩⟩
  | text he =>
    have hon : e.enabled = true := henabled
    rw [he] at hon
    cases hon
  | forceNormal => exact absurd ha (hresume e)
  | toggle message =>
    unfold toggleEnabled at henabled ha
    dsimp only at henabled ha
    split at ha
    · exact absurd ha (hresume _)
    · next hoff =>
      rw [if_neg hoff] at henabled
      exact absurd henabled hoff
  | backspace hm =>
    rw [mode_of_anchor? (e := e) ha] at hm
    cases hm
  | aside =>
    exact ⟨(h a henabled ha).of_eq rfl rfl, henabled, .inl ha⟩

end Editor

namespace Session

variable {s : Session} {past : List Session} {a : Position}

/-- Keys are interpreted, in visual mode with anchor `a`. -/
def Anchors (a : Position) (s : Session) : Prop :=
  s.enabled = true ∧ s.phase.anchor? = some a

/-- The anchor `a` was set from the cursor at a step of the run that has left normal mode, and it
has not changed since. -/
def AnchoredAtEntry (a : Position) (run : List Session) : Prop :=
  ∃ (since : List Session) (y x : Session) (before : List Session),
    run = since ++ y :: x :: before ∧ x.enabled = true ∧ x.mode = .normal ∧
    (a = if y.phase.isLineWise then ⟨x.buffer.cursor.line, 0⟩ else x.buffer.cursor) ∧
    ∀ z ∈ since ++ [y], z.Anchors a

theorem Run.selects (h : Run (s :: past)) : ∀ a, s.Anchors a → s.Selects a := by
  refine h.invariant (I := fun s => ∀ a, s.Anchors a → s.Selects a) ?_ ?_
  · rintro text limit config files clipboard path a ⟨-, ha⟩
    cases ha
  · rintro x y before hrun hx hnext a ⟨henabled, ha⟩
    exact (hnext.step.selects hrun.reachable.buffer_wellFormed hrun.versed
      (fun b he hb => hx b ⟨he, hb⟩) henabled ha).1

theorem Run.anchoredAtEntry (h : Run (s :: past)) (hs : s.Anchors a) :
    AnchoredAtEntry a (s :: past) := by
  obtain ⟨since, y, x, before, heq, hrun, hnext, hx, hall⟩ :=
    h.exists_since (P := Anchors a) hs (by rintro _ _ _ _ _ _ ⟨-, ha⟩; cases ha)
  obtain ⟨hyenabled, hya⟩ := hall y (List.mem_append_right _ (List.mem_singleton_self y))
  obtain ⟨-, hxenabled, hxa | ⟨hxm, hentry⟩⟩ := hnext.step.selects
    hrun.reachable.buffer_wellFormed hrun.versed (fun b he hb => hrun.selects b ⟨he, hb⟩)
    hyenabled hya
  · exact absurd ⟨hxenabled, hxa⟩ hx
  · exact ⟨since, y, x, before, heq, hxenabled, hxm, hentry, hall⟩

/-- **In visual mode, the selection is determined by the anchor and the cursor.**  The anchor is in
the text, and the selection runs from it, or covers the lines from its line to the cursor's, with
the cursor at the far end; and the anchor is where the cursor was when visual mode was entered. -/
theorem selection_of_anchor (h : Run (s :: past)) (henabled : s.enabled = true) {lineWise : Bool}
    {r : VisualReader} (hphase : s.phase = .visual a lineWise r) :
    s.lines.InRange a ∧
    (lineWise = false → s.buffer.selection.anchor = a) ∧
    (lineWise = true →
      s.buffer.selection.span.start = ⟨min a.line s.buffer.cursor.line, 0⟩ ∧
      s.buffer.selection.span.stop = s.lines.lineEnd (max a.line s.buffer.cursor.line) ∧
      s.buffer.cursor = if s.buffer.cursor.line < a.line then ⟨s.buffer.cursor.line, 0⟩
        else s.lines.lineEnd s.buffer.cursor.line) ∧
    AnchoredAtEntry a (s :: past) := by
  have hanchors : s.Anchors a := ⟨henabled, by rw [hphase]; rfl⟩
  obtain ⟨-, hrange, hselection⟩ := h.selects a hanchors
  refine ⟨hrange, ?_, ?_, h.anchoredAtEntry hanchors⟩
  · rintro rfl
    rw [hselection, Editor.selectionAt, hphase]
  · rintro rfl
    have hcursor : s.buffer.cursor = s.buffer.selection.active := rfl
    generalize s.buffer.cursor = q at hselection hcursor ⊢
    rw [Editor.selectionAt, hphase] at hselection
    dsimp only at hselection
    by_cases hq : q.line < a.line
    · -- The cursor is above the anchor line.
      rw [if_pos hq] at hselection
      have hline : q.line ≤ a.line := Nat.le_of_lt hq
      have hle : (⟨q.line, 0⟩ : Position) ≤ s.lines.lineEnd a.line := .inl hq
      rw [hselection, Selection.span, Span.between_of_ge hle, Nat.min_eq_right hline,
        Nat.max_eq_left hline, if_pos hq]
      exact ⟨rfl, rfl, hcursor.trans (congrArg Selection.active hselection)⟩
    · rw [if_neg hq] at hselection
      have hline : a.line ≤ q.line := by omega
      have hle : (⟨a.line, 0⟩ : Position) ≤ s.lines.lineEnd q.line := by
        rw [Position.le_iff]
        show a.line < q.line ∨ a.line = q.line ∧ 0 ≤ s.lines.lineLength q.line
        omega
      rw [hselection, Selection.span, Span.between_of_le hle, Nat.min_eq_left hline,
        Nat.max_eq_right hline, if_neg hq]
      exact ⟨rfl, rfl, hcursor.trans (congrArg Selection.active hselection)⟩

/-- The second of two lines is selected as a whole, and then the cursor goes up. -/
theorem selection_of_anchor_above :
    let t := start ['a', 'b', '\n', 'c'] 5 {} {} (.memory none) none
    let x := t.operate (.typeKeys ['j'])
    let y := x.operate (.typeKeys ['V'])
    let s := y.operate (.typeKeys ['k'])
    Run [s, y, x, t] ∧ s.enabled = true ∧ s.phase = .visual ⟨1, 0⟩ true .initial ∧
      s.lines.InRange ⟨1, 0⟩ ∧
      s.buffer.selection.span.start = ⟨min 1 s.buffer.cursor.line, 0⟩ ∧
      s.buffer.selection.span.stop = s.lines.lineEnd (max 1 s.buffer.cursor.line) ∧
      AnchoredAtEntry ⟨1, 0⟩ [s, y, x, t] := by
  intro t x y s
  have hrun : Run [s, y, x, t] := (((Run.start ..).next (.key 'j')).next (.key 'V')).next (.key 'k')
  have henabled : s.enabled = true := by decide +kernel
  have hphase : s.phase = .visual ⟨1, 0⟩ true .initial := by decide +kernel
  clear_value s y x t
  obtain ⟨hrange, -, hline, hentry⟩ := selection_of_anchor hrun henabled hphase
  obtain ⟨hstart, hstop, -⟩ := hline rfl
  exact ⟨hrun, henabled, hphase, hrange, hstart, hstop, hentry⟩

end Session

end ModalEditor
