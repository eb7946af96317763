import ModalEditor.Proofs.AtomicSave
import ModalEditor.Proofs.Browsing
import ModalEditor.Proofs.Carets
import ModalEditor.Proofs.Outward
import ModalEditor.Proofs.VisualSpelling

/-!
# Host commands that fail

The host commands bound to a key run in order, and those after one that fails do not run, neither in
this repetition nor in another.  A command that fails leaves the buffer as it found it, so that what
the editor has afterwards is what the commands before it made (`Editor.typeKeys_bound`).
-/

namespace ModalEditor

namespace Workspace

variable {w w' : Workspace} {name : String} {names : List String} {cause : HostError}

/-- The commands run in order from the first workspace to the second, and none of them fails. -/
inductive Succeeds : List String → Workspace → Workspace → Prop where
  | nil (w : Workspace) : Succeeds [] w w
  | cons {name : String} {names : List String} {w₁ w₂ w₃ : Workspace}
      (h : w₁.runNamed name [] = (w₂, none)) (hrest : Succeeds names w₂ w₃) :
      Succeeds (name :: names) w₁ w₃

/-- A command that fails leaves the buffer alone. -/
theorem buffer_runNamed_of_failure {arguments : List String}
    (h : w.runNamed name arguments = (w', some cause)) : w'.buffer = w.buffer := by
  unfold runNamed at h
  split at h
  · cases h
  split at h
  · cases h
  split at h
  · split at h
    · obtain ⟨rfl, -⟩ := Prod.mk.inj h
      rfl
    · cases h
  split at h
  · split at h
    · cases h
    · next saved e hsave =>
      obtain ⟨rfl, -⟩ := Prod.mk.inj h
      have hfailure : w.save.2 = some e := by rw [hsave]
      have hsaved : w.save.1 = saved := by rw [hsave]
      obtain hw | ⟨p, files, -, -, hw⟩ := w.save_eq_some hfailure
      · rw [← hsaved, hw]
      · rw [← hsaved, hw]
  · obtain ⟨rfl, -⟩ := Prod.mk.inj h
    rfl

theorem runBound_append (names more : List String) (w : Workspace) :
    runBound (names ++ more) w = match runBound names w with
      | (w', none) => runBound more w'
      | (w', some cause) => (w', some cause) := by
  induction names generalizing w with
  | nil => rfl
  | cons name names ih =>
    rw [List.cons_append, runBound, runBound]
    split
    · exact ih _
    · rfl

/-- **Bound commands run up to the first that fails.**  The buffer is the one that the commands
before it made. -/
theorem exists_succeeds_runBound (names : List String) (w : Workspace) :
    ∃ ran rest w', ran ++ rest = names ∧ Succeeds ran w w' ∧
      (runBound names w).1.buffer = w'.buffer ∧
      (rest = [] ∧ runBound names w = (w', none) ∨
        ∃ name more w'' cause, rest = name :: more ∧ w'.runNamed name [] = (w'', some cause) ∧
          runBound names w = (w'', some (.bound name cause))) := by
  induction names generalizing w with
  | nil => exact ⟨[], [], w, rfl, .nil w, rfl, .inl ⟨rfl, rfl⟩⟩
  | cons name names ih =>
    rw [runBound]
    generalize hrun : w.runNamed name [] = result
    rcases result with ⟨w', _ | cause⟩
    · obtain ⟨ran, rest, w'', happend, hran, hbuffer, hend⟩ := ih w'
      exact ⟨name :: ran, rest, w'', congrArg (name :: ·) happend, .cons hrun hran, hbuffer, hend⟩
    · exact ⟨[], name :: names, w, rfl, .nil w, buffer_runNamed_of_failure hrun,
        .inr ⟨name, names, w', cause, rfl, hrun, rfl⟩⟩

end Workspace

/-- The operator of a key bound to host commands. -/
def Operator.bound (names : List String) : Operator := ⟨.alone, .edit, .hostCommands names⟩

namespace Editor

variable {e x : Editor} {replay : Editor → Editor} {c : Char} {names : List String}

/-- The editor after host commands, with a message if one of them failed. -/
def afterBound (names : List String) (e : Editor) : Editor :=
  match e.toWorkspace.runBound names with
  | (w, none) => { e with toWorkspace := w }
  | (w, some failure) => { e with toWorkspace := w }.report failure

/-- The plan of a bound key. -/
theorem plan?_of_bound (hbound : e.config.hostCommands? c = some names) (n : Nat) :
    e.plan? { operator := c, count := n } =
      some ⟨.bound names, max n 1, .ofSpan (.point e.buffer.cursor), none⟩ := by
  rw [plan?, Config.operator?, hbound]
  rfl

theorem runPlan_bound {p : Plan} (hp : p.operator = .bound names) :
    runPlan replay p e =
      (if e.mode = .visual then (e.runBound names).1.resumeNormal else (e.runBound names).1,
        (e.runBound names).2) := by
  have haction : Action.run replay p e = e.runBound names := by
    unfold Action.run
    rw [hp]
    rfl
  have hmode : (e.runBound names).1.mode = e.mode := rfl
  rw [runPlan, haction, hp]
  dsimp only
  rw [hmode]
  by_cases hm : e.mode = .visual
  · rw [if_pos ⟨rfl, hm⟩, if_pos hm]
  · rw [if_neg fun h => hm h.2, if_neg hm]

/-- In normal mode the commands of a bound key run as often as the count says, as if they had all
been bound one after the other. -/
theorem repeatPlan_bound (hbound : e.config.hostCommands? c = some names) (hm : e.mode = .normal)
    (n : Nat) {p : Plan} (m : Nat) (hp : e.plan? { operator := c, count := n } = some p) :
    repeatPlan replay { operator := c, count := n } .normal m p e =
      e.afterBound (List.replicate m names).flatten := by
  induction m generalizing e p with
  | zero => rfl
  | succ m ih =>
    have hplan := plan?_of_bound hbound n
    obtain rfl := Option.some.inj (hp.symm.trans hplan)
    have hvisual : e.mode ≠ .visual := by
      rw [hm]
      decide
    rw [repeatPlan, runPlan_bound rfl, if_neg hvisual, List.replicate_succ, List.flatten_cons,
      afterBound, Workspace.runBound_append, runBound]
    generalize e.toWorkspace.runBound names = result
    rcases result with ⟨w, _ | failure⟩
    · dsimp only
      generalize hx : ({ e with toWorkspace := w } : Editor) = x
      have hbound' : x.config.hostCommands? c = some names := by
        rw [← hx]
        exact hbound
      have hm' : x.mode = .normal := by
        rw [← hx]
        exact hm
      rw [if_pos hm', plan?_of_bound hbound' n]
      dsimp only
      rw [ih hbound' hm' (plan?_of_bound hbound' n), ← hx]
      rfl
    · rfl

/-- In visual mode they run once, and visual mode ends, also if one of them fails. -/
theorem repeatPlan_bound_of_visual (hm : e.mode = .visual) (d : Command) {p : Plan} (m : Nat)
    (hp : p.operator = .bound names) :
    repeatPlan replay d .visual (m + 1) p e =
      match e.toWorkspace.runBound names with
      | (w, none) => { e with toWorkspace := w }.resumeNormal
      | (w, some failure) => { e with toWorkspace := w }.resumeNormal.report failure := by
  rw [repeatPlan, runPlan_bound hp, if_pos hm, runBound]
  generalize e.toWorkspace.runBound names = result
  rcases result with ⟨w, _ | failure⟩
  · dsimp only
    rw [if_neg]
    rw [mode_resumeNormal]
    decide
  · rfl

/-! ### The whole command -/

/-- Waiting for a command in normal mode, the editor has the text, the history and the files of `w`,
and tells of the failure, if there was one. -/
structure LeftWith (x : Editor) (w : Workspace) (failure : Option HostError) : Prop where
  unedited : x.buffer.Unedited w.buffer
  files : x.files = w.files
  message : x.message = failure.map fun cause => ⟨cause.message, .error⟩
  phase : x.phase = .normal .initial

theorem leftWith_afterBound (hphase : e.phase = .normal .initial) (hmessage : e.message = none)
    (names : List String) : (e.afterBound names).LeftWith (e.toWorkspace.runBound names).1
      (e.toWorkspace.runBound names).2 := by
  rw [afterBound]
  generalize e.toWorkspace.runBound names = result
  rcases result with ⟨w, _ | failure⟩
  · exact ⟨.refl _, rfl, hmessage, hphase⟩
  · exact ⟨⟨rfl, rfl, rfl, rfl⟩, rfl, rfl, hphase⟩

/-- Leaving visual mode, with or without a failure, leaves nothing selected besides. -/
theorem LeftWith.resumeNormal (hm : e.mode = .visual) (hmessage : e.message = none)
    (failure : Option HostError) :
    let x := match failure with
      | none => e.resumeNormal
      | some failure => e.resumeNormal.report failure
    x.LeftWith e.toWorkspace failure ∧ x.buffer.selection.isCaret = true := by
  have hunedited := (browsed_resumeNormal e).unedited
  have hkeeps : e.resumeNormal.files = e.files ∧ e.resumeNormal.message = e.message := by
    rw [Editor.resumeNormal]
    split <;> exact ⟨rfl, rfl⟩
  have hcaret := isCaret_resumeNormal (e := e) fun h => absurd hm h
  cases failure with
  | none =>
    exact ⟨⟨hunedited, hkeeps.1, hkeeps.2.trans hmessage, phase_resumeNormal e⟩, hcaret⟩
  | some failure =>
    have hreport := (browsed_report e.resumeNormal failure).unedited
    exact ⟨⟨hreport.trans hunedited, hkeeps.1, rfl, phase_resumeNormal e⟩, hcaret⟩

/-- What host commands leave does not depend on a group of changes around them. -/
theorem LeftWith.of_ungrouped {w w' : Workspace} {failure : Option HostError}
    (h : x.LeftWith w failure) (hw : w.ungrouped = w'.ungrouped) :
    (x.mapBuffer Buffer.endUndoGroup).LeftWith w' failure := by
  have hsame : w.buffer.Unedited w'.buffer :=
    ⟨congrArg (fun v => v.buffer.lines) hw, congrArg (fun v => v.buffer.dirty) hw,
      congrArg (fun v => v.buffer.history.past) hw, congrArg (fun v => v.buffer.history.future) hw⟩
  have hfiles : w.files = w'.files := congrArg (fun v => v.files) hw
  exact ⟨(browsed_endUndoGroup x).unedited.trans (h.unedited.trans hsame), h.files.trans hfiles,
    h.message, h.phase⟩

theorem ungrouped_prepare (e : Editor) (d : Command) :
    (e.prepare d).toWorkspace.ungrouped = e.toWorkspace.ungrouped := by
  have hhistory := e.buffer.history.endGroup_beginGroup
  rw [prepare_eq]
  exact congrArg (fun history => { e.toWorkspace with buffer := { e.buffer with history } })
    hhistory

theorem leftWith_run_bound (hbound : e.config.hostCommands? c = some names)
    (hphase : e.mode = .normal → e.phase = .normal .initial) (hmessage : e.message = none)
    (hm : e.mode ≠ .insert) {n : Nat} (hn : 0 < n) :
    let total := if e.mode = .normal then (List.replicate n names).flatten else names
    let x := e.run { operator := c, count := n }
    x.LeftWith (e.toWorkspace.runBound total).1 (e.toWorkspace.runBound total).2 ∧
      (e.mode = .visual → x.buffer.selection.isCaret = true) := by
  intro total x
  have hplan := plan?_of_bound hbound n
  have hx : x = repeatPlan replayLast { operator := c, count := n } e.mode n
      ⟨.bound names, max n 1, .ofSpan (.point e.buffer.cursor), none⟩ e := by
    show runWith replayLast e _ = _
    rw [runWith, hplan]
    dsimp only
    rw [Nat.max_eq_left hn]
  cases hmode : e.mode with
  | insert => exact absurd hmode hm
  | normal =>
    have htotal : total = (List.replicate n names).flatten := if_pos hmode
    rw [hx, hmode, repeatPlan_bound hbound hmode n n hplan, htotal]
    exact ⟨leftWith_afterBound (hphase hmode) hmessage _, fun h => by cases h⟩
  | visual =>
    have htotal : total = names := if_neg (by rw [hmode]; decide)
    obtain ⟨k, rfl⟩ := Nat.exists_eq_add_of_lt hn
    rw [hx, hmode, Nat.zero_add, repeatPlan_bound_of_visual hmode _ k rfl, htotal]
    generalize e.toWorkspace.runBound names = result
    rcases result with ⟨w, failure⟩
    obtain ⟨hleft, hcaret⟩ :=
      LeftWith.resumeNormal (e := { e with toWorkspace := w }) hmode hmessage failure
    cases failure with
    | none => exact ⟨hleft, fun _ => hcaret⟩
    | some failure => exact ⟨hleft, fun _ => hcaret⟩

theorem leftWith_dispatch_bound (hbound : e.config.hostCommands? c = some names)
    (hphase : e.mode = .normal → e.phase = .normal .initial) (hm : e.mode ≠ .insert) {n : Nat}
    (hn : 0 < n) :
    let total := if e.mode = .normal then (List.replicate n names).flatten else names
    let x := e.dispatch { operator := c, count := n }
    x.LeftWith (e.toWorkspace.runBound total).1 (e.toWorkspace.runBound total).2 ∧
      x.buffer.history.grouping = .closed ∧
      (e.mode = .visual → x.buffer.selection.isCaret = true) := by
  intro total x
  let d : Command := { operator := c, count := n }
  have hprepare := prepare_eq e d
  generalize hy : e.prepare d = y at hprepare
  have hbound' : y.config.hostCommands? c = some names := by rw [hprepare]; exact hbound
  have hphase' : y.mode = .normal → y.phase = .normal .initial := by rw [hprepare]; exact hphase
  have hmode : y.mode = e.mode := by rw [← hy, mode_prepare]
  have hrun := leftWith_run_bound hbound' hphase' (by rw [hprepare]) (hmode ▸ hm) hn
  rw [hmode] at hrun
  obtain ⟨hleft, hcaret⟩ := hrun
  -- The group of changes does not matter to the commands.
  have hgroup := ungrouped_prepare e d
  rw [hy] at hgroup
  have hsame : ((y.toWorkspace.runBound total).1.ungrouped, (y.toWorkspace.runBound total).2) =
      ((e.toWorkspace.runBound total).1.ungrouped, (e.toWorkspace.runBound total).2) := by
    rw [← Workspace.runBound_ungrouped, ← Workspace.runBound_ungrouped, hgroup]
  obtain ⟨hworkspace, hfailure⟩ := Prod.mk.inj hsame
  have hx : x = (y.run d).mapBuffer Buffer.endUndoGroup := by
    rw [show x = _ from dispatch_eq e d, hy]
    refine if_neg ?_
    rw [mode, hleft.phase]
    decide
  rw [hx, ← hfailure]
  exact ⟨hleft.of_ungrouped hworkspace, rfl, hcaret⟩

/-! ### Keys -/

theorem opens_of_bound (hbound : e.config.hostCommands? c = some names)
    (hdigit : c.isDigit = false) {ds : Digits} (hds : ds.IsCount) :
    Command.Opens e.config .alone ds c := by
  refine ⟨hds, .of_isDigit hdigit, ?_⟩
  rw [Config.operator?, hbound]
  rfl

theorem typeKeys_of_bound (henabled : e.enabled = true) (hphase : e.phase.dropPending = e.phase)
    (hm : e.mode ≠ .insert) (hbound : e.config.hostCommands? c = some names)
    (hdigit : c.isDigit = false) {ds : Digits} (hds : ds.IsCount) :
    e.typeKeys (ds ++ [c]) = e.dispatch { operator := c, count := ds.amount } := by
  have hopens := opens_of_bound hbound hdigit hds
  have hspells : Command.SpellsIn e.config e.mode (ds ++ [c])
      { operator := c, count := ds.amount } := by
    cases hmode : e.mode with
    | normal => exact .alone hopens
    | insert => exact absurd hmode hm
    | visual => exact .alone hopens
  rw [← foldl_typeKey_of_spellsIn hphase hspells]
  exact if_pos henabled

/-- **A failing host command corrupts nothing.**  Typing a count and a key bound to host commands
runs them in order, in normal mode as often as the count says and in visual mode once, up to the
first that fails.  The editor is left with the text and the history that the commands before it
made; the message names it and tells why it failed, and there is none if none failed.  The mode is
normal with nothing read, the group of changes has ended, and after visual mode nothing is
selected. -/
theorem typeKeys_bound (henabled : e.enabled = true) (hm : e.mode ≠ .insert)
    (hpending : e.hasPending = false) (hbound : e.config.hostCommands? c = some names)
    (hdigit : c.isDigit = false) {ds : Digits} (hds : ds.IsCount) :
    let total := if e.mode = .normal then (List.replicate ds.amount names).flatten else names
    let x := e.typeKeys (ds ++ [c])
    ∃ ran rest w, ran ++ rest = total ∧ Workspace.Succeeds ran e.toWorkspace w ∧
      (x.lines = w.buffer.lines ∧ x.buffer.dirty = w.buffer.dirty ∧
        x.buffer.history.past = w.buffer.history.past ∧
        x.buffer.history.future = w.buffer.history.future) ∧
      (rest = [] ∧ x.message = none ∧ x.files = w.files ∨
        ∃ name more w' cause, rest = name :: more ∧ w.runNamed name [] = (w', some cause) ∧
          x.message = some ⟨"command `" ++ name ++ "` failed: " ++ cause.message, .error⟩ ∧
          x.files = w'.files) ∧
      x.phase = .normal .initial ∧ x.buffer.history.grouping = .closed ∧
      (e.mode = .visual → x.buffer.selection.isCaret = true) := by
  intro total x
  have hphase : e.phase.dropPending = e.phase :=
    Phase.dropPending_of_pending (by simpa [hasPending] using hpending) hm
  have hx : x = e.dispatch { operator := c, count := ds.amount } :=
    typeKeys_of_bound henabled hphase hm hbound hdigit hds
  have hinitial (hmode : e.mode = .normal) : e.phase = .normal .initial :=
    Phase.eq_initial hmode (by simpa [hasPending] using hpending)
  obtain ⟨hleft, hgrouping, hcaret⟩ := leftWith_dispatch_bound hbound hinitial hm hds.amount_pos
  rw [← hx] at hleft hgrouping hcaret
  obtain ⟨ran, rest, w, htotal, hran, hbuffer, hend⟩ :=
    Workspace.exists_succeeds_runBound total e.toWorkspace
  have hunedited : x.buffer.Unedited w.buffer := by
    rw [← hbuffer]
    exact hleft.unedited
  refine ⟨ran, rest, w, htotal, hran,
    ⟨hunedited.lines, hunedited.dirty, hunedited.past, hunedited.future⟩, ?_, hleft.phase,
    hgrouping, hcaret⟩
  have hfiles := hleft.files
  have hmessage := hleft.message
  rcases hend with ⟨hrest, hall⟩ | ⟨name, more, w', cause, hrest, hfailed, hall⟩
  · rw [show e.toWorkspace.runBound _ = _ from hall] at hfiles hmessage
    exact .inl ⟨hrest, hmessage, hfiles⟩
  · rw [show e.toWorkspace.runBound _ = _ from hall] at hfiles hmessage
    exact .inr ⟨name, more, w', cause, hrest, hfailed, hmessage, hfiles⟩

/-- Two deletions are to be undone, but the command after the first undoing fails; in visual mode
the same happens, and visual mode ends. -/
theorem typeKeys_bound_failing :
    let w : Workspace := { buffer := .ofText ['a', 'b', 'c', 'd'] }
    let config : Config := { commandBindings := .ofList [("q", ["undo", "revealLine"])] }
    let e := (ofWorkspace w config).typeKeys ['x', 'x', 'x']
    let x := e.typeKeys ['2', 'q']
    let v := e.typeKeys ['v']
    let y := v.typeKeys ['2', 'q']
    (∃ ran rest z, ran ++ rest = ["undo", "revealLine", "undo", "revealLine"] ∧
      Workspace.Succeeds ran e.toWorkspace z ∧ rest ≠ [] ∧ x.lines = z.buffer.lines) ∧
    x.lines = [['c', 'd']] ∧
    x.message = some ⟨"command `revealLine` failed: revealLine: missing line", .error⟩ ∧
    y.lines = [['c', 'd']] ∧ y.phase = .normal .initial ∧
      y.buffer.selection.isCaret = true := by
  intro w config e x v y
  have hcount : Digits.IsCount ['2'] := .inr (.digit (by decide) (by decide))
  have hmode : e.mode = .normal := by decide +kernel
  have hmode' : v.mode = .visual := by decide +kernel
  have hready : e.enabled = true ∧ e.hasPending = false := by decide +kernel
  have hready' : v.enabled = true ∧ v.hasPending = false := by decide +kernel
  have hbound : e.config.hostCommands? 'q' = some ["undo", "revealLine"] := by decide +kernel
  have hbound' : v.config.hostCommands? 'q' = some ["undo", "revealLine"] := by decide +kernel
  have hlines : x.lines = [['c', 'd']] ∧ y.lines = [['c', 'd']] := by decide +kernel
  have hmessage : x.message =
    some ⟨"command `revealLine` failed: revealLine: missing line", .error⟩ := by decide +kernel
  -- What the editors are does not matter any more.
  clear_value v e
  obtain ⟨ran, rest, z, htotal, hran, ⟨hz, -⟩, hend, -⟩ := typeKeys_bound hready.1
    (by rw [hmode]; decide) hready.2 hbound (by decide) hcount
  obtain ⟨-, -, -, -, -, -, -, hphase, -, hcaret⟩ := typeKeys_bound hready'.1
    (by rw [hmode']; decide) hready'.2 hbound' (by decide) hcount
  rw [if_pos hmode] at htotal
  have hrest : rest ≠ [] := by
    rcases hend with ⟨-, hnone, -⟩ | ⟨name, more, -, -, hrest, -⟩
    · cases hmessage.symm.trans hnone
    · rw [hrest]
      exact List.cons_ne_nil _ _
  exact ⟨⟨ran, rest, z, htotal, hran, hrest, hz⟩, hlines.1, hmessage, hlines.2, hphase,
    hcaret hmode'⟩

end Editor

end ModalEditor
