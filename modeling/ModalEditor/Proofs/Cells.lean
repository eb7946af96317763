import ModalEditor.Proofs.NothingRead
import ModalEditor.Proofs.Runs

/-!
# The modal state in cells

A `Phase` holds what its mode needs and nothing else.  Kept in memory the modal state is a number of
cells instead, `Cells`: the mode, an anchor that may be set, the kind of a selection, and a reader
for each mode.  Any combination of these is a value, and only some of them are `Cells.Consistent`;
the phases are just these (`Cells.consistent_iff`).

A `CellEditor` is an editor with its modal state in cells.  Entering a mode sets the cells one by
one, and reading a key changes the reader of one mode; nothing says beforehand that the cells of the
other modes have been reset.  But they have: with every operation the cells stay those of the phase
(`CellEditor.typeKey_split`, `CellSession.exec_split`), and so they are consistent throughout.
-/

namespace ModalEditor

/-! ### Cells -/

/-- The modal state, cell by cell. -/
structure Cells where
  mode : Mode := .normal
  /-- The fixed end of the selection in visual mode. -/
  anchor : Option Position := none
  /-- The selection covers whole lines. -/
  lineWise : Bool := false
  normal : NormalReader := .initial
  visual : VisualReader := .initial
  insert : EscapeReader := .initial
deriving DecidableEq, Repr

namespace Cells

/-- Forget what has been read in any mode. -/
def resetReaders (c : Cells) : Cells :=
  { c with normal := .initial, visual := .initial, insert := .initial }

/-- The phase of the mode, made from the cells that belong to it. -/
def phase (c : Cells) : Phase :=
  match c.mode with
  | .normal => .normal c.normal
  | .insert => .insert c.insert
  | .visual => .visual (c.anchor.getD .origin) c.lineWise c.visual

/-- There is an anchor just in visual mode, only there the selection can cover whole lines, and in
all modes but the current one nothing has been read. -/
structure Consistent (c : Cells) : Prop where
  anchor : c.anchor.isSome = true ↔ c.mode = .visual
  lineWise : c.lineWise = true → c.mode = .visual
  normal : c.mode ≠ .normal → c.normal = .initial
  visual : c.mode ≠ .visual → c.visual = .initial
  insert : c.mode ≠ .insert → c.insert = .initial

end Cells

/-- The cells of a phase, those that belong to no other mode being reset. -/
def Phase.cells : Phase → Cells
  | normal reading => { normal := reading }
  | insert typed => { mode := .insert, insert := typed }
  | visual anchor lineWise reading =>
    { mode := .visual, anchor := some anchor, lineWise, visual := reading }

namespace Phase

variable (p : Phase)

@[simp] theorem phase_cells : p.cells.phase = p := by
  cases p <;> rfl

@[simp] theorem mode_cells : p.cells.mode = p.mode := by
  cases p <;> rfl

@[simp] theorem lineWise_cells : p.cells.lineWise = p.isLineWise := by
  cases p <;> rfl

theorem resetReaders_cells : p.cells.resetReaders = p.dropPending.cells := by
  cases p <;> rfl

theorem consistent_cells : p.cells.Consistent := by
  cases p with
  | normal reading =>
    exact ⟨by simp [cells], by simp [cells], fun h => absurd rfl h, fun _ => rfl, fun _ => rfl⟩
  | insert typed =>
    exact ⟨by simp [cells], by simp [cells], fun _ => rfl, fun _ => rfl, fun h => absurd rfl h⟩
  | visual anchor lineWise reading =>
    exact ⟨by simp [cells], fun _ => rfl, fun _ => rfl, fun h => absurd rfl h, fun _ => rfl⟩

end Phase

/-- Consistent cells are the cells of a phase. -/
theorem Cells.Consistent.cells_phase {c : Cells} (h : c.Consistent) : c.phase.cells = c := by
  obtain ⟨hanchor, hlineWise, hnormal, hvisual, hinsert⟩ := h
  obtain ⟨mode, anchor, lineWise, normal, visual, insert⟩ := c
  cases mode with
  | normal =>
    obtain rfl : visual = .initial := hvisual nofun
    obtain rfl : insert = .initial := hinsert nofun
    obtain rfl : anchor = none := by simpa using hanchor
    obtain rfl : lineWise = false := by simpa using hlineWise
    rfl
  | insert =>
    obtain rfl : visual = .initial := hvisual nofun
    obtain rfl : normal = .initial := hnormal nofun
    obtain rfl : anchor = none := by simpa using hanchor
    obtain rfl : lineWise = false := by simpa using hlineWise
    rfl
  | visual =>
    obtain rfl : normal = .initial := hnormal nofun
    obtain rfl : insert = .initial := hinsert nofun
    obtain ⟨p, rfl⟩ := Option.isSome_iff_exists.1 (hanchor.2 rfl)
    rfl

/-- **Phases are consistent cells.** -/
theorem Cells.consistent_iff {c : Cells} : c.Consistent ↔ ∃ p : Phase, p.cells = c := by
  constructor
  · exact fun h => ⟨c.phase, h.cells_phase⟩
  · rintro ⟨p, rfl⟩
    exact p.consistent_cells

/-! ### Editors with cells -/

/-- An editor with its modal state in cells. -/
structure CellEditor extends Workspace where
  config : Config := {}
  enabled : Bool := true
  cells : Cells := {}
  register : Option Clipping := none
  slots : RepeatSlots := {}
  message : Option Message := none

/-- The editor with its modal state split into cells. -/
def Editor.split (e : Editor) : CellEditor where
  toWorkspace := e.toWorkspace
  config := e.config
  enabled := e.enabled
  cells := e.phase.cells
  register := e.register
  slots := e.slots
  message := e.message

namespace CellEditor

variable (x : CellEditor)

/-- The editor that is left when only the cells of the mode are looked at. -/
def joined : Editor where
  toWorkspace := x.toWorkspace
  config := x.config
  enabled := x.enabled
  phase := x.cells.phase
  register := x.register
  slots := x.slots
  message := x.message

/-- Carry out what leaves the modal state alone and looks at no more of it than the mode. -/
def lift (f : Editor → Editor) : CellEditor := { (f x.joined).split with cells := x.cells }

/-- As `lift`, for what can fail. -/
def liftRun (f : Editor → Editor × Option HostError) : CellEditor × Option HostError :=
  (x.lift fun e => (f e).1, (f x.joined).2)

/-- Change the buffer. -/
def mapBuffer (f : Buffer → Buffer) : CellEditor := { x with buffer := f x.buffer }

/-! ### Modes, cell by cell -/

/-- The selection that a cursor at `p` gives; the anchor counts in visual mode only. -/
def selectionAt (p : Position) : Selection :=
  match x.cells.mode, x.cells.anchor with
  | .visual, some anchor =>
    if x.cells.lineWise then
      if p.line < anchor.line then ⟨x.buffer.lines.lineEnd anchor.line, ⟨p.line, 0⟩⟩
      else ⟨⟨anchor.line, 0⟩, x.buffer.lines.lineEnd p.line⟩
    else ⟨anchor, p⟩
  | _, _ => .caret p

/-- Move the cursor to `p`, in visual mode extending the selection. -/
def moveTo (p : Position) : CellEditor :=
  x.mapBuffer fun b => (b.select (x.selectionAt (x.buffer.lines.clamp p))).revealCursor

/-- Set the anchor and the kind of the selection for visual mode.  An anchor of visual mode
stays. -/
def anchorVisual (lineWise : Bool) : CellEditor :=
  let cursor := x.buffer.clampedCursor
  let anchor :=
    match x.cells.mode, x.cells.anchor with
    | .visual, some anchor => anchor
    | _, _ => if lineWise then ⟨cursor.line, 0⟩ else cursor
  let cells := { x.cells with mode := .visual, anchor := some anchor, lineWise }
  { x with cells }.moveTo cursor

/-- Switch the mode, and forget what has been read in any mode. -/
def setMode (m : Mode) (lineWise : Bool) : CellEditor :=
  let x :=
    match m with
    | .normal =>
      { x.mapBuffer fun b => { b with cursorStyle := .block } with
        cells := { x.cells with anchor := none, lineWise := false } }
    | .insert =>
      { x.mapBuffer fun b => { b with cursorStyle := .line } with
        cells := { x.cells with anchor := none, lineWise := false } }
    | .visual => (x.mapBuffer fun b => { b with cursorStyle := .block }).anchorVisual lineWise
  { x with cells := { x.cells with mode := m }.resetReaders }

/-- Return to normal mode; a visual selection leaves the cursor at its start. -/
def resumeNormal : CellEditor :=
  let x :=
    if x.cells.mode = .visual then x.mapBuffer fun b => b.setCursor b.selection.span.start else x
  { x with cells := { x.cells with insert := .initial } }.setMode .normal false

/-- Give up an incomplete command and return to normal mode. -/
def forceNormal : CellEditor :=
  { x with cells := x.cells.resetReaders }.resumeNormal.mapBuffer Buffer.endUndoGroup

/-- Switch the interpretation of keys off or on. -/
def toggleEnabled : CellEditor :=
  let x := { x with enabled := !x.enabled, cells := x.cells.resetReaders }.mapBuffer
    Buffer.endUndoGroup
  if x.enabled then x.resumeNormal else x.mapBuffer fun b => { b with cursorStyle := .line }

/-! ### Actions -/

/-- Enter insert mode. -/
def enterInsert : CellEditor := x.setMode .insert false

/-- Move the cursor by a motion. -/
def move (m : Motion) : CellEditor :=
  x.moveTo (m.target x.buffer.lines x.joined.separators x.buffer.clampedCursor)

/-- Move the cursor to a character on its line. -/
def search (s : Search) (argument : Option Char) : CellEditor :=
  match argument with
  | none => x
  | some c => x.moveTo (s.target x.buffer.lines x.buffer.clampedCursor c)

/-- Insert on a new line, made by inserting a line feed at `place n` for the line `n` of the
cursor; the new line is `line n`. -/
def openLine (place : Lines → Nat → Position) (line : Nat → Nat) : CellEditor :=
  let x := x.resumeNormal
  let n := x.buffer.clampedCursor.line
  ((x.mapBuffer fun b => b.edit [.insert (place x.buffer.lines n) ['\n']]).mapBuffer fun b =>
    b.setCursor ⟨line n, 0⟩).enterInsert

/-- Enter visual mode or switch its kind; in visual mode of the same kind, leave it. -/
def toggleVisual (lineWise : Bool) : CellEditor :=
  if x.cells.mode = .visual ∧ x.cells.lineWise = lineWise then x.resumeNormal
  else x.setMode .visual lineWise

/-- Delete into the register and insert instead.  Of whole lines one empty line stays. -/
def change (t : Target) : CellEditor :=
  let s := if t.lineWise then Span.between ⟨t.first, 0⟩ (x.buffer.lines.lineEnd t.last) else t.span
  let x := if t.span.isEmpty then x else x.lift fun e => e.store (e.clipping t)
  let x := if s.isEmpty then x else x.mapBuffer fun b => b.edit [.erase s]
  (x.resumeNormal.mapBuffer fun b => b.setCursor s.start).enterInsert

/-- Run the action of a plan.  Most actions leave the modal state alone. -/
def act (replay : CellEditor → CellEditor) (p : Plan) (x : CellEditor) :
    CellEditor × Option HostError :=
  match p.operator.action with
  | .move m => (x.move m, none)
  | .search s => (x.search s p.argument, none)
  | .insertBefore => (x.resumeNormal.enterInsert, none)
  | .insertAfter => ((x.resumeNormal.move .right).enterInsert, none)
  | .insertLineStart => ((x.resumeNormal.move .lineStart).enterInsert, none)
  | .insertLineEnd => ((x.resumeNormal.move .lineEnd).enterInsert, none)
  | .openBelow => (x.openLine Lines.lineEnd (· + 1), none)
  | .openAbove => (x.openLine (fun _ n => ⟨n, 0⟩) id, none)
  | .visual lineWise => (x.toggleVisual lineWise, none)
  | .change => (x.change p.target, none)
  | .repeatLast => (replay x, none)
  | _ => x.liftRun (Action.run id p)

/-! ### Running -/

/-- Run a plan once.  An edit ends visual mode. -/
def runPlan (replay : CellEditor → CellEditor) (p : Plan) (x : CellEditor) :
    CellEditor × Option HostError :=
  let (x, failure) := act replay p x
  (if p.operator.kind = .edit ∧ x.cells.mode = .visual then x.resumeNormal else x, failure)

/-- Run a plan for the command `c` and plan and run it again, `n` times in all, while the mode
stays `start`. -/
def repeatPlan (replay : CellEditor → CellEditor) (c : Command) (start : Mode) :
    (n : Nat) → Plan → CellEditor → CellEditor
  | 0, _, x => x
  | n + 1, p, x =>
    match runPlan replay p x with
    | (x, some failure) => x.lift (·.report failure)
    | (x, none) =>
      if x.cells.mode = start then
        match x.joined.plan? c with
        | some p => repeatPlan replay c start n p x
        | none => x
      else x

/-- Run a command, where `replay` is what repeating the last one does. -/
def runWith (replay : CellEditor → CellEditor) (x : CellEditor) (c : Command) : CellEditor :=
  match x.joined.plan? c with
  | none => x
  | some p => repeatPlan replay c x.cells.mode p.count p x

/-- Run the last repeatable command of the current mode again. -/
def replayLast : CellEditor :=
  match x.slots.last x.cells.mode with
  | none => x
  | some c => runWith id x c

/-- Run a command that has been typed, as one step of the undo history. -/
def dispatch (c : Command) : CellEditor :=
  let x := runWith replayLast (x.lift (·.prepare c)) c
  if x.cells.mode = .insert then x else x.mapBuffer Buffer.endUndoGroup

/-- Run a command if there is one. -/
def dispatch? (c : Option Command) : CellEditor :=
  match c with
  | some c => x.dispatch c
  | none => x

/-- Take back the escape sequence before the cursor and return to normal mode. -/
def leaveInsert : CellEditor :=
  let stop := x.buffer.cursor
  let start := x.buffer.lines.stepBack stop x.joined.escape.length
  let erased := x.mapBuffer fun b => b.edit [.erase (.between start stop)]
  (erased.mapBuffer fun b => b.setCursor start).resumeNormal.mapBuffer Buffer.endUndoGroup

/-- Watch for the escape sequence. -/
def watch (c : Char) : CellEditor :=
  { x with cells := { x.cells with insert := x.cells.insert.read x.joined.escape c } }

/-- Type a character in insert mode. -/
def typeInserted (c : Char) : CellEditor :=
  let x := (x.mapBuffer fun b => b.typeText [c]).watch c
  if x.cells.insert.isComplete x.joined.escape then x.leaveInsert else x

/-- Interpret a key. -/
def typeKey (c : Char) : CellEditor :=
  match x.cells.mode with
  | .insert => x.typeInserted c
  | .normal =>
    let (reading, command) := x.cells.normal.read x.config c
    { x with cells := { x.cells with normal := reading } }.dispatch? command
  | .visual =>
    let (reading, command) := x.cells.visual.read x.config c
    { x with cells := { x.cells with visual := reading } }.dispatch? command

/-- Type text: keys one by one, or the text itself while interpretation is off. -/
def typeKeys (text : List Char) : CellEditor :=
  if x.enabled then text.foldl typeKey x else x.mapBuffer fun b => b.typeText text

end CellEditor

/-! ### Operations keep to the phase -/

namespace CellEditor

open Editor (split)

variable {e : Editor} {p : Plan} {c : Command}

@[simp] theorem joined_split (e : Editor) : e.split.joined = e := by
  simp [split, joined]

@[simp] theorem mode_split (e : Editor) : e.split.cells.mode = e.mode := e.phase.mode_cells

theorem lift_split {f : Editor → Editor} (h : (f e).phase = e.phase) :
    e.split.lift f = (f e).split := by
  rw [lift, joined_split]
  show ({ (f e).split with cells := e.phase.cells } : CellEditor) = _
  rw [← h]
  rfl

theorem liftRun_split {f : Editor → Editor × Option HostError} (h : (f e).1.phase = e.phase) :
    e.split.liftRun f = ((f e).1.split, (f e).2) := by
  rw [liftRun, lift_split h, joined_split]

theorem mapBuffer_split (e : Editor) (f : Buffer → Buffer) :
    e.split.mapBuffer f = (e.mapBuffer f).split := rfl

theorem split_ite {P : Prop} [Decidable P] {x y : CellEditor} {d e : Editor}
    (hx : x = d.split) (hy : y = e.split) :
    (if P then x else y) = (if P then d else e).split := by
  rw [hx, hy, apply_ite split]

/-! ### Modes -/

theorem selectionAt_split (e : Editor) (p : Position) :
    e.split.selectionAt p = e.selectionAt p := by
  unfold selectionAt Editor.selectionAt
  cases h : e.phase with
  | normal | insert => simp [split, h, Phase.cells]
  | visual anchor lineWise reading =>
    cases lineWise <;> simp [split, h, Phase.cells, Editor.lines]

theorem moveTo_split (e : Editor) (p : Position) : e.split.moveTo p = (e.moveTo p).split := by
  have hselection := selectionAt_split e (e.lines.clamp p)
  exact congrArg (fun s => (e.mapBuffer fun b => (b.select s).revealCursor).split) hselection

theorem enterInsert_split (e : Editor) : e.split.enterInsert = e.enterInsert.split := rfl

/-- In visual mode the anchor and the kind of the selection are set before the readers are. -/
theorem setMode_visual_split (e : Editor) (lineWise : Bool) :
    e.split.setMode .visual lineWise = (e.enterVisual lineWise).split := by
  obtain ⟨workspace, config, enabled, phase, register, slots, message⟩ := e
  cases phase <;> cases lineWise <;> rfl

theorem resumeNormal_split (e : Editor) : e.split.resumeNormal = e.resumeNormal.split := by
  obtain ⟨workspace, config, enabled, phase, register, slots, message⟩ := e
  cases phase <;> rfl

theorem resetReaders_split (e : Editor) :
    { e.split with cells := e.split.cells.resetReaders } = e.dropPending.split := by
  show ({ e.split with cells := e.phase.cells.resetReaders } : CellEditor) = _
  rw [Phase.resetReaders_cells]
  rfl

theorem forceNormal_split (e : Editor) : e.split.forceNormal = e.forceNormal.split := by
  have hreset : e.dropPending.resumeNormal = e.resumeNormal := by
    obtain ⟨workspace, config, enabled, phase, register, slots, message⟩ := e
    cases phase <;> rfl
  rw [forceNormal, resetReaders_split, resumeNormal_split, hreset]
  rfl

theorem toggleEnabled_split (e : Editor) : e.split.toggleEnabled = e.toggleEnabled.split := by
  have hreset : { e.split with
      enabled := !e.split.enabled, cells := e.split.cells.resetReaders } = e.toggleDetached.split :=
    congrArg (fun x : CellEditor => { x with enabled := !e.enabled }) (resetReaders_split e)
  rw [toggleEnabled, hreset]
  exact split_ite (resumeNormal_split (e.toggleDetached.mapBuffer Buffer.endUndoGroup)) rfl

/-! ### Actions -/

theorem move_split (e : Editor) (m : Motion) : e.split.move m = (e.move m).split := by
  rw [move, joined_split]
  exact moveTo_split e _

theorem search_split (e : Editor) (s : Search) (argument : Option Char) :
    e.split.search s argument = (e.search s argument).split := by
  cases argument with
  | none => rfl
  | some c => exact moveTo_split e _

theorem resumeAndMove_split (e : Editor) (m : Motion) :
    (e.split.resumeNormal.move m).enterInsert = (e.resumeNormal.move m).enterInsert.split := by
  rw [resumeNormal_split, move_split, enterInsert_split]

theorem openLine_split (e : Editor) (place : Lines → Nat → Position) (line : Nat → Nat) :
    e.split.openLine place line =
      (let e := e.resumeNormal
      let n := e.buffer.clampedCursor.line
      ((e.edit [.insert (place e.lines n) ['\n']]).setCursor ⟨line n, 0⟩).enterInsert).split := by
  rw [openLine, resumeNormal_split]
  rfl

theorem toggleVisual_split (e : Editor) (lineWise : Bool) :
    e.split.toggleVisual lineWise = (e.toggleVisual lineWise).split := by
  have hkind : e.split.cells.lineWise = e.phase.isLineWise := e.phase.lineWise_cells
  rw [toggleVisual, mode_split, hkind]
  exact split_ite (resumeNormal_split e) (setMode_visual_split e lineWise)

theorem change_split (e : Editor) (t : Target) : e.split.change t = (e.change t).split := by
  let s := if t.lineWise then Span.between ⟨t.first, 0⟩ (e.lines.lineEnd t.last) else t.span
  let stored := if t.span.isEmpty then e else e.store (e.clipping t)
  let erased := if s.isEmpty then stored else stored.edit [.erase s]
  have hstored : (if t.span.isEmpty then e.split
      else e.split.lift fun e => e.store (e.clipping t)) = stored.split :=
    split_ite rfl (lift_split (Editor.sameMode_store e _).phase)
  have herased : (if s.isEmpty then stored.split
      else stored.split.mapBuffer fun b => b.edit [.erase s]) = erased.split :=
    split_ite rfl rfl
  have hchange : e.split.change t =
      (let x := if t.span.isEmpty then e.split
        else e.split.lift fun e => e.store (e.clipping t)
      let x := if s.isEmpty then x else x.mapBuffer fun b => b.edit [.erase s]
      (x.resumeNormal.mapBuffer fun b => b.setCursor s.start).enterInsert) := rfl
  rw [hchange, hstored]
  dsimp only
  rw [herased, resumeNormal_split]
  rfl

variable {flatReplay : CellEditor → CellEditor} {replay : Editor → Editor}

/-- An action does to the cells what it does to the phase. -/
theorem act_split (p : Plan) (hr : flatReplay e.split = (replay e).split) :
    act flatReplay p e.split = ((Action.run replay p e).1.split, (Action.run replay p e).2) := by
  obtain ⟨⟨arity, kind, action⟩, count, target, argument⟩ := p
  cases action with
  | move m => exact congrArg (·, none) (move_split e m)
  | search s => exact congrArg (·, none) (search_split e s argument)
  | insertBefore => exact congrArg (fun x => (enterInsert x, none)) (resumeNormal_split e)
  | insertAfter => exact congrArg (·, none) (resumeAndMove_split e .right)
  | insertLineStart => exact congrArg (·, none) (resumeAndMove_split e .lineStart)
  | insertLineEnd => exact congrArg (·, none) (resumeAndMove_split e .lineEnd)
  | openBelow => exact congrArg (·, none) (openLine_split e _ _)
  | openAbove => exact congrArg (·, none) (openLine_split e _ _)
  | visual lineWise => exact congrArg (·, none) (toggleVisual_split e lineWise)
  | change => exact congrArg (·, none) (change_split e target)
  | repeatLast => exact congrArg (·, none) hr
  -- The other actions leave the phase alone.
  | _ => exact liftRun_split (Editor.sameMode_action rfl).phase

/-! ### Running -/

theorem runPlan_split (p : Plan) (hr : flatReplay e.split = (replay e).split) :
    runPlan flatReplay p e.split =
      ((Editor.runPlan replay p e).1.split, (Editor.runPlan replay p e).2) := by
  rw [runPlan, act_split p hr, Editor.runPlan]
  dsimp only
  rw [mode_split]
  exact congrArg (·, _) (split_ite (resumeNormal_split _) rfl)

theorem repeatPlan_split (hr : ∀ e, flatReplay e.split = (replay e).split) (c : Command)
    (start : Mode) (n : Nat) (p : Plan) (e : Editor) :
    repeatPlan flatReplay c start n p e.split = (Editor.repeatPlan replay c start n p e).split := by
  induction n generalizing p e with
  | zero => rfl
  | succ n ih =>
    rw [repeatPlan, runPlan_split p (hr e), Editor.repeatPlan]
    rcases Editor.runPlan replay p e with ⟨d, _ | failure⟩
    · dsimp only
      rw [mode_split, joined_split]
      refine split_ite ?_ rfl
      cases d.plan? c with
      | none => rfl
      | some q => exact ih q d
    · exact lift_split rfl

theorem runWith_split (hr : ∀ e, flatReplay e.split = (replay e).split) (e : Editor)
    (c : Command) : runWith flatReplay e.split c = (Editor.runWith replay e c).split := by
  rw [runWith, joined_split, Editor.runWith]
  cases e.plan? c with
  | none => rfl
  | some p =>
    dsimp only
    rw [mode_split]
    exact repeatPlan_split hr c e.mode p.count p e

theorem replayLast_split (e : Editor) : e.split.replayLast = e.replayLast.split := by
  rw [replayLast, mode_split, Editor.replayLast]
  show (match e.slots.last e.mode with
    | none => e.split
    | some c => runWith id e.split c) = _
  cases e.slots.last e.mode with
  | none => rfl
  | some c => exact runWith_split (fun _ => rfl) e c

theorem dispatch_split (e : Editor) (c : Command) : e.split.dispatch c = (e.dispatch c).split := by
  have hprepare : e.split.lift (·.prepare c) = (e.prepare c).split := by
    refine lift_split ?_
    rw [Editor.prepare_eq]
  rw [dispatch, hprepare, runWith_split replayLast_split, Editor.dispatch_eq]
  dsimp only
  rw [mode_split]
  exact split_ite rfl rfl

theorem dispatch?_split (e : Editor) (c : Option Command) :
    e.split.dispatch? c = (e.dispatch? c).split := by
  cases c with
  | none => rfl
  | some c => exact dispatch_split e c

/-! ### Keys -/

theorem leaveInsert_split (e : Editor) : e.split.leaveInsert = e.leaveInsert.split := by
  rw [leaveInsert, joined_split, mapBuffer_split, mapBuffer_split, resumeNormal_split]
  rfl

theorem watch_split {typed : EscapeReader} (h : e.phase = .insert typed) (c : Char) :
    e.split.watch c = { e with phase := .insert (typed.read e.escape c) }.split := by
  obtain ⟨workspace, config, enabled, phase, register, slots, message⟩ := e
  obtain rfl : phase = .insert typed := h
  rfl

/-- Leaving insert mode does not look at what has been read of the escape sequence. -/
theorem leaveInsert_of_phase {typed : EscapeReader} (h : e.phase = .insert typed)
    (read : EscapeReader) : { e with phase := .insert read }.leaveInsert = e.leaveInsert := by
  obtain ⟨workspace, config, enabled, phase, register, slots, message⟩ := e
  obtain rfl : phase = .insert typed := h
  rfl

theorem typeInserted_split {typed : EscapeReader} (h : e.phase = .insert typed) (c : Char) :
    e.split.typeInserted c = (e.typeInserted typed c).split := by
  let text := e.mapBuffer fun b => b.typeText [c]
  let read : Editor := { text with phase := .insert (typed.read text.escape c) }
  have hread : (e.split.mapBuffer fun b => b.typeText [c]).watch c = read.split :=
    watch_split (e := text) h c
  have hleave : read.leaveInsert = text.leaveInsert := leaveInsert_of_phase (e := text) h _
  rw [typeInserted, hread, joined_split, leaveInsert_split, hleave]
  exact split_ite rfl rfl

theorem typeKey_split (e : Editor) (c : Char) : e.split.typeKey c = (e.typeKey c).split := by
  have hcells : e.split.cells = e.phase.cells := rfl
  cases h : e.phase with
  | insert typed =>
    rw [typeKey, hcells, h]
    simp only [Editor.typeKey, h]
    exact typeInserted_split h c
  | normal reading =>
    rw [typeKey, hcells, h]
    simp only [Editor.typeKey, h]
    exact dispatch?_split { e with phase := .normal (reading.read e.config c).1 } _
  | visual anchor lineWise reading =>
    rw [typeKey, hcells, h]
    simp only [Editor.typeKey, h]
    exact dispatch?_split
      { e with phase := .visual anchor lineWise (reading.read e.config c).1 } _

theorem typeKeys_split (e : Editor) (text : List Char) :
    e.split.typeKeys text = (e.typeKeys text).split := by
  have hkeys (e : Editor) : text.foldl typeKey e.split = (text.foldl Editor.typeKey e).split := by
    induction text generalizing e with
    | nil => rfl
    | cons c text ih =>
      rw [List.foldl_cons, typeKey_split]
      exact ih (e.typeKey c)
  exact split_ite (hkeys e) rfl

end CellEditor

/-! ### Sessions with cells -/

namespace Session

/-- A call on offer to whoever has an interpreter and a buffer. -/
inductive Call where
  | typeKeys (text : List Char)
  | forceNormal
  | toggleEnabled
  | press (key : Key)
deriving DecidableEq, Repr

/-- The call as an operation on a session. -/
def Call.operation : Call → Operation
  | typeKeys text => .typeKeys text
  | forceNormal => .forceNormal
  | toggleEnabled => .toggleEnabled
  | press key => .press key

/-- Carry out a call. -/
def exec (s : Session) (c : Call) : Session := s.operate c.operation

end Session

/-- A session with its modal state in cells. -/
structure CellSession extends CellEditor where
  quitRefused : Bool := false

/-- The session with its modal state split into cells. -/
def Session.split (s : Session) : CellSession where
  toCellEditor := s.toEditor.split
  quitRefused := s.quitRefused

namespace CellSession

/-- What a gesture other than quitting does to the editor. -/
def perform (x : CellEditor) : Gesture → CellEditor
  | .typing keys => x.typeKeys keys
  | .escape => x.forceNormal
  | .backspace => x.mapBuffer Buffer.backspace
  | .save => x.lift Session.saveAndTell
  | .toggleEnabled =>
    let x := x.toggleEnabled
    x.lift (·.say (if x.enabled then "Modal editing on" else "Modal editing off") .info)
  | .quit | .unknown => x

/-- Handle a key, and tell whether the session is over. -/
def handle (s : CellSession) (key : Key) : CellSession × Bool :=
  match key.gesture s.cells.mode with
  | .quit =>
    if s.buffer.dirty ∧ !s.quitRefused then
      ({ s.toCellEditor.lift (·.say Session.quitWarning .warning) with quitRefused := true }, false)
    else (s, true)
  | gesture => ({ perform s.toCellEditor gesture with quitRefused := false }, false)

/-- Carry out a call. -/
def exec (s : CellSession) : Session.Call → CellSession
  | .typeKeys text => { s with toCellEditor := s.typeKeys text }
  | .forceNormal => { s with toCellEditor := s.forceNormal }
  | .toggleEnabled => { s with toCellEditor := s.toggleEnabled }
  | .press key => (s.handle key).1

/-- The session that begins with a text. -/
def start (text : List Char) (limit : Nat) (config : Config) (files : FileTree)
    (clipboard : Clipboard) (path : Option Path) : CellSession where
  buffer := { Buffer.ofText text with history := { limit }, clipboard, path }
  files
  config

theorem perform_split (e : Editor) (g : Gesture) :
    perform e.split g = (Session.perform e g).split := by
  cases g with
  | typing keys => exact CellEditor.typeKeys_split e keys
  | escape => exact CellEditor.forceNormal_split e
  | backspace => rfl
  | save =>
    refine CellEditor.lift_split ?_
    obtain ⟨files, dirty, message, hsave⟩ := Session.saveAndTell_eq e
    rw [hsave]
  | toggleEnabled =>
    rw [perform, CellEditor.toggleEnabled_split]
    exact CellEditor.lift_split rfl
  | quit | unknown => rfl

theorem handle_split (s : Session) (key : Key) :
    s.split.handle key = ((s.handle key).1.split, (s.handle key).2) := by
  have hmode : s.split.cells.mode = s.mode := CellEditor.mode_split s.toEditor
  rw [handle, hmode, Session.handle]
  cases hg : key.gesture s.mode with
  | quit =>
    dsimp only
    have hwarned : s.split.toCellEditor.lift (·.say Session.quitWarning .warning) =
        (s.toEditor.say Session.quitWarning .warning).split := CellEditor.lift_split rfl
    rw [hwarned]
    by_cases hrefuse : s.buffer.dirty = true ∧ (!s.quitRefused) = true
    · rw [if_pos hrefuse]
      exact if_pos hrefuse
    · rw [if_neg hrefuse]
      exact if_neg hrefuse
  | typing | escape | backspace | save | toggleEnabled | unknown =>
    exact congrArg (fun x : CellEditor => (({ x with quitRefused := false } : CellSession), false))
      (perform_split s.toEditor _)

/-- **Whatever is called, the cells stay those of the phase.** -/
theorem exec_split (s : Session) (c : Session.Call) : s.split.exec c = (s.exec c).split := by
  cases c with
  | typeKeys text =>
    exact congrArg (fun x => ({ s.split with toCellEditor := x } : CellSession))
      (CellEditor.typeKeys_split s.toEditor text)
  | forceNormal =>
    exact congrArg (fun x => ({ s.split with toCellEditor := x } : CellSession))
      (CellEditor.forceNormal_split s.toEditor)
  | toggleEnabled =>
    exact congrArg (fun x => ({ s.split with toCellEditor := x } : CellSession))
      (CellEditor.toggleEnabled_split s.toEditor)
  | press key => exact congrArg Prod.fst (handle_split s key)

theorem foldl_exec_split (s : Session) (cs : List Session.Call) :
    cs.foldl exec s.split = (cs.foldl Session.exec s).split := by
  induction cs generalizing s with
  | nil => rfl
  | cons c cs ih =>
    rw [List.foldl_cons, exec_split]
    exact ih (s.exec c)

end CellSession

end ModalEditor
