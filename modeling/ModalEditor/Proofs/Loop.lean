import ModalEditor.Proofs.Reachable
import ModalEditor.Proofs.View

/-!
# Running a command again and again

A command runs once for each unit of its count (`Editor.repeatPlan`).  What every single run keeps,
the whole command keeps (`Editor.run_induct`, `Editor.dispatch_induct`), so that invariants are
shown for a single action of the command's operator.

What an action is told to replay matters to repeating alone (`Editor.runWith_congr`).
-/

namespace ModalEditor

/-! ### The table of operators -/

/-- How the operators with this action relate to modes and to repeating. -/
def Action.kind : Action → Kind
  | move _ | search _ | scroll => .movement
  | insertBefore | insertAfter | insertLineStart | insertLineEnd | visual _ => .mode
  | repeatLast => .standIn
  | _ => .edit

/-- In the table of operators the kind goes with the action; only repeating stands in for other
commands, and only edits take a range. -/
theorem Config.operator?_kind {config : Config} {k : Char} {op : Operator}
    (h : config.operator? k = some op) : op.kind = op.action.kind ∧
      (op.arity = .standIn ↔ op.action = .repeatLast) ∧ (op.arity = .range → op.kind = .edit) := by
  unfold operator? at h
  cases hhost : config.hostCommands? k with
  | some names =>
    rw [hhost] at h
    cases h
    exact ⟨rfl, by simp, by simp⟩
  | none =>
    rw [hhost] at h
    dsimp only at h
    unfold Operator.builtin? at h
    split at h <;> cases h <;> exact ⟨rfl, by simp [Operator.moving], by simp [Operator.moving]⟩

namespace Editor

variable {replay replay' : Editor → Editor} {e : Editor} {c : Command} {op : Operator}
variable {start : Mode} {p : Plan}

/-! ### One run -/

theorem acts_runPlan (p : Plan) : Acts true (fun x => (runPlan replayLast p x).1) e :=
  (runs_runPlan p (acts_replayLast e.slotsAllow_host) (fun h => by cases h)).1

theorem action_run_congr (h : p.operator.action ≠ .repeatLast) :
    Action.run replay p e = Action.run replay' p e := by
  unfold Action.run
  split <;> first | rfl | contradiction

theorem runPlan_congr (h : p.operator.action ≠ .repeatLast) :
    runPlan replay p e = runPlan replay' p e := by
  rw [runPlan, runPlan, action_run_congr h]

/-! ### All runs -/

/-- What each run keeps, all of them together keep. -/
theorem repeatPlan_induct {motive : Editor → Prop}
    (hreport : ∀ x cause, motive x → motive (x.report cause))
    (hrun : ∀ x p, motive x → x.mode = start → x.plan? c = some p →
      motive (runPlan replay p x).1)
    (n : Nat) (he : motive e) (hmode : e.mode = start) (hp : e.plan? c = some p) :
    motive (repeatPlan replay c start n p e) := by
  induction n generalizing e p with
  | zero => exact he
  | succ n ih =>
    have hfirst := hrun e p he hmode hp
    rw [repeatPlan]
    generalize runPlan replay p e = result at hfirst
    rcases result with ⟨x, _ | failure⟩
    · dsimp only at hfirst ⊢
      split
      · next hm =>
        split
        · next hq => exact ih hfirst hm hq
        · exact hfirst
      · exact hfirst
    · exact hreport x failure hfirst

/-- Editors that are related, and run alike as long as they are, are related in the end. -/
theorem repeatPlan_rel {R : Editor → Editor → Prop}
    (hmode : ∀ {x y}, R x y → x.mode = y.mode) (hplan : ∀ {x y}, R x y → x.plan? c = y.plan? c)
    (hreport : ∀ {x y} cause, R x y → R (x.report cause) (y.report cause))
    (hrun : ∀ {x y} p, R x y → y.mode = start → y.plan? c = some p →
      R (runPlan replay p x).1 (runPlan replay p y).1 ∧
        (runPlan replay p x).2 = (runPlan replay p y).2)
    (n : Nat) {x y : Editor} (h : R x y) (hm : y.mode = start) (hp : y.plan? c = some p) :
    R (repeatPlan replay c start n p x) (repeatPlan replay c start n p y) := by
  induction n generalizing x y p with
  | zero => exact h
  | succ n ih =>
    have hfirst := hrun p h hm hp
    rw [repeatPlan, repeatPlan]
    generalize runPlan replay p x = first at hfirst
    generalize runPlan replay p y = second at hfirst
    rcases first with ⟨x', failure⟩
    rcases second with ⟨y', failure'⟩
    obtain ⟨hxy, rfl⟩ := hfirst
    cases failure with
    | some failure => exact hreport failure hxy
    | none =>
      dsimp only at hxy ⊢
      rw [hmode hxy, hplan hxy]
      split
      · next hm' =>
        split
        · next hq => exact ih hxy hm' hq
        · exact hxy
      · exact hxy

theorem repeatPlan_congr (hop : e.config.operator? c.operator = some op)
    (h : op.action ≠ .repeatLast) (n : Nat) (hp : e.plan? c = some p) :
    repeatPlan replay c start n p e = repeatPlan id c start n p e := by
  induction n generalizing e p with
  | zero => rfl
  | succ n ih =>
    have hpop : p.operator = op := by
      have hoperator := operator_of_plan? hp
      rw [hop] at hoperator
      exact (Option.some.inj hoperator).symm
    have hruns : Runs true (runPlan id p) e := runs_runPlan p (.refl e) fun h => by cases h
    have hconfig := hruns.1.config
    have hsame : runPlan replay p e = runPlan id p e := runPlan_congr (by rwa [hpop])
    rw [repeatPlan, repeatPlan, hsame]
    generalize runPlan id p e = result at hconfig
    rcases result with ⟨x, _ | failure⟩
    · dsimp only
      split
      · split
        · next hq => exact ih (by rwa [hconfig]) hq
        · rfl
      · rfl
    · rfl

/-- Only repeating the last command asks what that is. -/
theorem runWith_congr (hop : e.config.operator? c.operator = some op)
    (h : op.action ≠ .repeatLast) : runWith replay e c = runWith id e c := by
  rw [runWith, runWith]
  split
  · rfl
  · next hp => exact repeatPlan_congr hop h _ hp

/-- **What each run of its operator keeps, a command keeps.** -/
theorem run_induct {motive : Editor → Prop} (hop : e.config.operator? c.operator = some op)
    (hreport : ∀ x cause, motive x → motive (x.report cause))
    (hrun : ∀ x p, motive x → x.mode = e.mode → p.operator = op →
      motive (runPlan replayLast p x).1)
    (he : motive e) : motive (e.run c) := by
  rw [run, runWith]
  split
  · exact he
  · next p hp =>
    -- The settings stay, and so the operator does.
    refine (repeatPlan_induct (motive := fun x => motive x ∧ x.config = e.config)
      (fun x cause hx => ⟨hreport x cause hx.1, hx.2⟩) (fun x q hx hm hq => ?_)
      p.count ⟨he, rfl⟩ rfl hp).1
    have hoperator := operator_of_plan? hq
    rw [hx.2, hop] at hoperator
    exact ⟨hrun x q hx.1 hm (Option.some.inj hoperator).symm, (acts_runPlan q).config.trans hx.2⟩

/-- **What each run of its operator keeps, dispatching a command keeps.** -/
theorem dispatch_induct {motive : Editor → Prop} (hop : e.config.operator? c.operator = some op)
    (hreport : ∀ x cause, motive x → motive (x.report cause))
    (hrun : ∀ x p, motive x → x.mode = e.mode → p.operator = op →
      motive (runPlan replayLast p x).1)
    (hend : ∀ x, motive x → motive (x.mapBuffer Buffer.endUndoGroup))
    (he : motive (e.prepare c)) : motive (e.dispatch c) := by
  have hall : motive ((e.prepare c).run c) :=
    run_induct (by rwa [config_prepare]) hreport (by rwa [mode_prepare]) he
  rw [dispatch_eq]
  dsimp only
  split
  · exact hall
  · exact hend _ hall

end Editor

end ModalEditor
