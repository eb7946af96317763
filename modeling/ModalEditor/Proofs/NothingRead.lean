import ModalEditor.Interpreter
import ModalEditor.Proofs.Footprint
import ModalEditor.Proofs.SameMode

/-!
# Commands leave nothing read

A command runs when its last key has been read, and whatever it does, nothing of a next command or
of the escape sequence has been read when it ends (`Editor.nothingRead_dispatch`).  In particular a
command that enters insert mode begins to watch for the escape sequence anew
(`Editor.initial_of_typeKey`).
-/

namespace ModalEditor

namespace Editor

variable {e x : Editor} {replay : Editor → Editor}

/-- Nothing has been read in the current phase. -/
def NothingRead (e : Editor) : Prop := e.phase.dropPending = e.phase

theorem NothingRead.of_phase (he : e.NothingRead) (h : x.phase = e.phase) : x.NothingRead := by
  rw [NothingRead, h]
  exact he

/-! ### Actions -/

theorem nothingRead_resumeNormal (e : Editor) : e.resumeNormal.NothingRead := by
  rw [NothingRead, phase_resumeNormal]
  rfl

theorem nothingRead_toggleVisual (e : Editor) (lineWise : Bool) :
    (e.toggleVisual lineWise).NothingRead := by
  rw [toggleVisual]
  split
  · exact nothingRead_resumeNormal e
  · rfl

/-- An action keeps to the phase, or enters a new one. -/
theorem nothingRead_action (p : Plan) (he : e.NothingRead) (hr : (replay e).NothingRead) :
    (Action.run replay p e).1.NothingRead := by
  by_cases hkeeps : p.operator.action.keepsMode = true
  · exact he.of_phase (sameMode_action hkeeps).phase
  · unfold Action.run
    cases haction : p.operator.action with
    | insertBefore | insertAfter | insertLineStart | insertLineEnd | openBelow | openAbove
    | change => rfl
    | visual lineWise => exact nothingRead_toggleVisual e lineWise
    | repeatLast => exact hr
    | _ =>
      rw [haction] at hkeeps
      exact absurd rfl hkeeps

/-! ### Running -/

theorem nothingRead_runPlan (p : Plan) (he : e.NothingRead) (hr : (replay e).NothingRead) :
    (runPlan replay p e).1.NothingRead := by
  have haction := nothingRead_action p he hr
  rw [runPlan]
  dsimp only
  split
  · exact nothingRead_resumeNormal _
  · exact haction

theorem nothingRead_repeatPlan {c : Command} {start : Mode}
    (hr : ∀ x : Editor, x.NothingRead → (replay x).NothingRead) (n : Nat) (p : Plan)
    (he : e.NothingRead) : (repeatPlan replay c start n p e).NothingRead := by
  induction n generalizing e p with
  | zero => exact he
  | succ n ih =>
    have hrun := nothingRead_runPlan p he (hr e he)
    rw [repeatPlan]
    generalize runPlan replay p e = result at hrun
    rcases result with ⟨e', _ | failure⟩
    · dsimp only
      split
      · split
        · exact ih _ hrun
        · exact hrun
      · exact hrun
    · exact hrun

theorem nothingRead_runWith {c : Command}
    (hr : ∀ x : Editor, x.NothingRead → (replay x).NothingRead) (he : e.NothingRead) :
    (runWith replay e c).NothingRead := by
  rw [runWith]
  split
  · exact he
  · exact nothingRead_repeatPlan hr _ _ he

theorem nothingRead_replayLast (he : e.NothingRead) : e.replayLast.NothingRead := by
  rw [replayLast]
  split
  · exact he
  · exact nothingRead_runWith (fun _ h => h) he

/-- **Commands leave nothing read.** -/
theorem nothingRead_dispatch (he : e.NothingRead) (c : Command) : (e.dispatch c).NothingRead := by
  have hprepare : (e.prepare c).NothingRead := by
    rw [prepare_eq]
    exact he
  have hrun : ((e.prepare c).run c).NothingRead :=
    nothingRead_runWith (fun _ => nothingRead_replayLast) hprepare
  rw [dispatch_eq]
  dsimp only
  split <;> exact hrun

end Editor

/-! ### Keys -/

/-- When a key completes a command, nothing has been read of the next one. -/
theorem NormalReader.initial_of_read {config : Config} {r : NormalReader} {c : Char} {d : Command}
    (h : (r.read config c).2 = some d) : (r.read config c).1 = initial := by
  unfold read at h ⊢
  grind

theorem VisualReader.initial_of_read {config : Config} {r : VisualReader} {c : Char} {d : Command}
    (h : (r.read config c).2 = some d) : (r.read config c).1 = initial := by
  unfold read at h ⊢
  grind

namespace Editor

variable {e : Editor}

theorem initial_of_dispatch? {o : Option Command} {typed : EscapeReader} (hm : e.mode ≠ .insert)
    (ho : ∀ d, o = some d → e.NothingRead) (h : (e.dispatch? o).phase = .insert typed) :
    typed = .initial := by
  cases o with
  | none =>
    have hmode : e.mode = .insert := congrArg Phase.mode h
    exact absurd hmode hm
  | some d =>
    have hphase : (e.dispatch d).phase = .insert typed := h
    have hnothing := nothingRead_dispatch (ho d rfl) d
    rw [NothingRead, hphase] at hnothing
    injection hnothing with htyped
    exact htyped.symm

/-- A key that enters insert mode begins to watch for the escape sequence. -/
theorem initial_of_typeKey {c : Char} {typed : EscapeReader} (hm : e.mode ≠ .insert)
    (h : (e.typeKey c).phase = .insert typed) : typed = .initial := by
  cases hp : e.phase with
  | insert =>
    rw [mode, hp] at hm
    exact absurd rfl hm
  | normal r =>
    simp only [typeKey, hp] at h
    refine initial_of_dispatch? (by simp [mode, Phase.mode]) (fun d hd => ?_) h
    rw [NothingRead, NormalReader.initial_of_read hd]
    rfl
  | visual anchor lineWise r =>
    simp only [typeKey, hp] at h
    refine initial_of_dispatch? (by simp [mode, Phase.mode]) (fun d hd => ?_) h
    rw [NothingRead, VisualReader.initial_of_read hd]
    rfl

end Editor

end ModalEditor
