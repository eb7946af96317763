import ModalEditor.Proofs.Repetition
import ModalEditor.Proofs.Unsaved

/-!
# How deep repetitions nest

Running a command that repeats the last one runs another command, and if that were a repetition too,
it would run yet another one.  Nothing in this recursion gets smaller.  `Editor.runWithin` is the
recursion as it stands, up to a number of runs nested in one another; it gives nothing if there are
more.

A repetition that is remembered itself never ends, it gives nothing whatever the number is
(`Editor.Endless.runWithin_eq_none`).  But only edits are remembered (`Editor.RemembersEdits`), and
a repetition is no edit, whatever keys are bound to host commands.  So one run nested in another is
enough, and allowing for more changes nothing: all end as `Editor.run` says, which never looks
further (`Editor.runWithin_succ`).  With this every key is handled to an end
(`Session.repetition_nests_once`).
-/

namespace ModalEditor

namespace Editor

variable {e e' : Editor} {c d : Command} {op : Operator} {p : Plan} {start : Mode}

/-! ### Runs in runs -/

section Nested

-- How a command is run inside the run of another one, if it can be.
variable (nested : Editor → Command → Option Editor)

/-- Run the action of a plan.  Repeating the last command runs that command inside. -/
def actNested (p : Plan) (e : Editor) : Option (Editor × Option HostError) :=
  match p.operator.action with
  | .repeatLast =>
    match e.slots.last e.mode with
    | none => some (e, none)
    | some c => (nested e c).map fun e => (e, none)
  | _ => some (Action.run id p e)

/-- Run a plan once.  An edit ends visual mode. -/
def runPlanNested (p : Plan) (e : Editor) : Option (Editor × Option HostError) := do
  let (e, failure) ← actNested nested p e
  some (if p.operator.kind = .edit ∧ e.mode = .visual then e.resumeNormal else e, failure)

/-- Run a plan for the command `c` and plan and run it again, `n` times in all, while the mode
stays `start`. -/
def repeatPlanNested (c : Command) (start : Mode) : (n : Nat) → Plan → Editor → Option Editor
  | 0, _, e => some e
  | n + 1, p, e => do
    match ← runPlanNested nested p e with
    | (e, some failure) => some (e.report failure)
    | (e, none) =>
      if e.mode = start then
        match e.plan? c with
        | some p => repeatPlanNested c start n p e
        | none => some e
      else some e

/-- Run a command. -/
def runNested (e : Editor) (c : Command) : Option Editor :=
  match e.plan? c with
  | none => some e
  | some p => repeatPlanNested nested c e.mode p.count p e

end Nested

/-- Run a command, with at most so many runs nested in one another inside it. -/
def runWithin : (depth : Nat) → Editor → Command → Option Editor
  | 0 => runNested fun _ _ => none
  | depth + 1 => runNested (runWithin depth)

/-- Run a command that has been typed. -/
def dispatchWithin (depth : Nat) (e : Editor) (c : Command) : Option Editor := do
  let e ← runWithin depth (e.prepare c) c
  some (if e.mode = .insert then e else e.mapBuffer Buffer.endUndoGroup)

/-- Run a command if there is one. -/
def dispatchWithin? (depth : Nat) (e : Editor) (c : Option Command) : Option Editor :=
  match c with
  | some c => e.dispatchWithin depth c
  | none => some e

/-- Interpret a key. -/
def typeKeyWithin (depth : Nat) (e : Editor) (c : Char) : Option Editor :=
  match e.phase with
  | .insert typed => some (e.typeInserted typed c)
  | .normal reading =>
    let (reading, command) := reading.read e.config c
    dispatchWithin? depth { e with phase := .normal reading } command
  | .visual anchor lineWise reading =>
    let (reading, command) := reading.read e.config c
    dispatchWithin? depth { e with phase := .visual anchor lineWise reading } command

/-- Type text: keys one by one, or the text itself while interpretation is off. -/
def typeKeysWithin (depth : Nat) (e : Editor) (text : List Char) : Option Editor :=
  if e.enabled then text.foldlM (typeKeyWithin depth) e
  else some (e.mapBuffer fun b => b.typeText text)

/-! ### A remembered repetition -/

/-- The command is a repetition, and it is the one that is remembered. -/
structure Endless (e : Editor) (d : Command) : Prop where
  operator : e.config.operator? d.operator = some repeatOperator
  isVirtual : d.isVirtual = true
  last : e.slots.last e.mode = some d

theorem Endless.runNested_eq_none (h : e.Endless d) {nested : Editor → Command → Option Editor}
    (hnested : nested e d = none) : runNested nested e d = none := by
  have hplan : e.plan? d =
      some ⟨repeatOperator, 1, .ofSpan (.point e.buffer.cursor), d.argument⟩ := by
    simp [plan?, h.operator, h.isVirtual]
  have hact (p : Plan) (hp : p.operator = repeatOperator) : actNested nested p e = none := by
    rw [actNested, hp, repeatOperator]
    dsimp only
    rw [h.last]
    dsimp only
    rw [hnested, Option.map_none]
  rw [runNested, hplan]
  dsimp only
  rw [repeatPlanNested, runPlanNested, hact _ rfl]
  rfl

/-- **Repeating a repetition has no end.**  Running a repetition that is itself remembered exceeds
any depth. -/
theorem Endless.runWithin_eq_none (h : e.Endless d) (depth : Nat) :
    e.runWithin depth d = none := by
  induction depth with
  | zero => exact h.runNested_eq_none rfl
  | succ depth ih => exact h.runNested_eq_none ih

/-- The key that repeats, if it were remembered. -/
example :
    let d : Command := { operator := '.', isVirtual := true }
    Endless { config := {}, slots := { normal := some d } } d :=
  ⟨rfl, rfl, rfl⟩

/-! ### Where there is an end -/

/-- All remembered commands are edits. -/
def RemembersEdits (e : Editor) : Prop := ∀ m c, e.slots.last m = some c → e.isEdit c = true

theorem RemembersEdits.of_eq (h : e.RemembersEdits) (hconfig : e'.config = e.config)
    (hslots : e'.slots = e.slots) : e'.RemembersEdits := by
  intro m c hc
  rw [hslots] at hc
  rw [isEdit_congr hconfig]
  exact h m c hc

theorem RemembersEdits.prepare (h : e.RemembersEdits) (d : Command) :
    (e.prepare d).RemembersEdits := by
  intro m c hc
  rw [isEdit_congr (config_prepare e d)]
  rcases last_prepare hc with hc | ⟨hd, -, rfl⟩
  · exact h m c hc
  · exact hd

theorem Versed.remembersEdits (h : e.Versed) : e.RemembersEdits := fun _ _ => h.edits

variable {nested : Editor → Command → Option Editor} {replay : Editor → Editor}

theorem runPlanNested_of_act (h : actNested nested p e = some (Action.run replay p e)) :
    runPlanNested nested p e = some (runPlan replay p e) := by
  rw [runPlanNested, h]
  rfl

/-- If every single run ends, so do all of them together.  What is known of the editor is kept by
each run. -/
theorem repeatPlanNested_eq {I : Editor → Prop}
    (hrun : ∀ x p, I x → x.plan? c = some p → I (runPlan replay p x).1 ∧
      runPlanNested nested p x = some (runPlan replay p x))
    (n : Nat) (he : I e) (hp : e.plan? c = some p) :
    repeatPlanNested nested c start n p e = some (repeatPlan replay c start n p e) := by
  induction n generalizing e p with
  | zero => rfl
  | succ n ih =>
    obtain ⟨hkept, hfirst⟩ := hrun e p he hp
    rw [repeatPlanNested, repeatPlan, hfirst]
    generalize runPlan replay p e = result at hkept
    rcases result with ⟨x, _ | failure⟩
    · dsimp only [Option.bind_eq_bind, Option.bind_some]
      split
      · cases hq : x.plan? c with
        | none => rfl
        | some q => exact ih hkept hq
      · rfl
    · rfl

theorem runNested_eq {I : Editor → Prop}
    (hrun : ∀ x p, I x → x.plan? c = some p → I (runPlan replay p x).1 ∧
      runPlanNested nested p x = some (runPlan replay p x)) (he : I e) :
    runNested nested e c = some (runWith replay e c) := by
  rw [runNested, runWith]
  cases hp : e.plan? c with
  | none => rfl
  | some p => exact repeatPlanNested_eq hrun p.count he hp

/-- In the run of a command that is no repetition no other command is run. -/
theorem runNested_of_ne (hop : e.config.operator? c.operator = some op)
    (h : op.action ≠ .repeatLast) : runNested nested e c = some (runWith id e c) := by
  refine runNested_eq (I := fun x => x.config = e.config) (fun x p hx hp => ?_) rfl
  have hpop : p.operator = op := by
    have hoperator := operator_of_plan? hp
    rw [hx, hop] at hoperator
    exact (Option.some.inj hoperator).symm
  have hruns : Runs true (runPlan id p) x := runs_runPlan p (.refl x) fun h => by cases h
  have hact : actNested nested p x = some (Action.run id p x) := by
    rw [actNested]
    split
    · next haction => exact absurd haction (by rwa [hpop])
    · rfl
  exact ⟨hruns.1.config.trans hx, runPlanNested_of_act hact⟩

theorem runWithin_of_ne (hop : e.config.operator? c.operator = some op)
    (h : op.action ≠ .repeatLast) (depth : Nat) :
    e.runWithin depth c = some (runWith id e c) := by
  cases depth <;> exact runNested_of_ne hop h

/-- What an action repeats is no repetition. -/
theorem actNested_runWithin (h : e.RemembersEdits) (depth : Nat) (p : Plan) :
    actNested (runWithin depth) p e = some (Action.run replayLast p e) := by
  rw [actNested]
  split
  · next haction =>
    have hact : Action.run replayLast p e = (e.replayLast, none) := by rw [Action.run, haction]
    rw [hact, replayLast]
    cases hslot : e.slots.last e.mode with
    | none => rfl
    | some c =>
      have hedit := h e.mode c hslot
      obtain ⟨op, hop⟩ := exists_operator_of_isEdit hedit
      dsimp only
      rw [runWithin_of_ne hop (action_ne_of_isEdit hedit hop), Option.map_some]
  · next haction => rw [action_run_congr haction]

/-- **Running a command ends**, with no more than one run nested in it, if only edits are
remembered. -/
theorem runWithin_succ (h : e.RemembersEdits) (depth : Nat) (c : Command) :
    e.runWithin (depth + 1) c = some (e.run c) := by
  refine runNested_eq (I := RemembersEdits) (fun x p hx _ => ⟨?_, ?_⟩) h
  · have hruns : Acts true (fun x => (runPlan replayLast p x).1) x := acts_runPlan p
    exact hx.of_eq hruns.config hruns.slots
  · exact runPlanNested_of_act (actNested_runWithin hx depth p)

theorem dispatchWithin?_succ (h : e.RemembersEdits) (depth : Nat) (c : Option Command) :
    e.dispatchWithin? (depth + 1) c = some (e.dispatch? c) := by
  cases c with
  | none => rfl
  | some c =>
    show e.dispatchWithin (depth + 1) c = some (e.dispatch c)
    rw [dispatchWithin, runWithin_succ (h.prepare c), dispatch_eq]
    rfl

theorem typeKeyWithin_succ (h : e.RemembersEdits) (depth : Nat) (k : Char) :
    e.typeKeyWithin (depth + 1) k = some (e.typeKey k) := by
  rw [typeKeyWithin, typeKey]
  cases e.phase with
  | insert typed => rfl
  | normal reading =>
    have hread : RemembersEdits { e with phase := .normal (reading.read e.config k).1 } :=
      h.of_eq rfl rfl
    exact dispatchWithin?_succ hread depth _
  | visual anchor lineWise reading =>
    have hread : RemembersEdits
        { e with phase := .visual anchor lineWise (reading.read e.config k).1 } :=
      h.of_eq rfl rfl
    exact dispatchWithin?_succ hread depth _

theorem typeKeysWithin_succ (h : e.Versed) (depth : Nat) (text : List Char) :
    e.typeKeysWithin (depth + 1) text = some (e.typeKeys text) := by
  have hfold : text.foldlM (typeKeyWithin (depth + 1)) e = some (text.foldl typeKey e) := by
    induction text generalizing e with
    | nil => rfl
    | cons k text ih =>
      rw [List.foldlM_cons, typeKeyWithin_succ h.remembersEdits, List.foldl_cons]
      exact ih (h.typeKey k)
  rw [typeKeysWithin, typeKeys, hfold]
  split <;> rfl

end Editor

namespace Session

variable {s : Session} {past : List Session}

/-- Handle a key, with at most so many runs nested in one another.  Only keys that type run
commands. -/
def handleWithin (depth : Nat) (s : Session) (key : Key) : Option (Session × Bool) :=
  match key.gesture s.mode with
  | .typing keys => do
    let e ← s.typeKeysWithin depth keys
    some ({ e with quitRefused := false }, false)
  | _ => some (s.handle key)

theorem handleWithin_succ (h : s.Versed) (depth : Nat) (key : Key) :
    s.handleWithin (depth + 1) key = some (s.handle key) := by
  rw [handleWithin]
  cases hg : key.gesture s.mode with
  | typing keys =>
    have hhandle : s.handle key = ({ s.typeKeys keys with quitRefused := false }, false) := by
      rw [handle_of_ne_quit (fun h => by rw [hg] at h; cases h), hg]
      rfl
    dsimp only
    rw [Editor.typeKeysWithin_succ h, hhandle]
    rfl
  | _ => rfl

/-- **Repetitions nest at most once.**  Throughout a run no repetition is remembered, in either
mode and whatever the settings.  So the keys that are typed and the keys of the terminal are handled
to an end when a single run may be nested in another one, and nothing changes when more of them
may. -/
theorem repetition_nests_once (h : Run (s :: past)) :
    (∀ c op, s.slots.normal = some c ∨ s.slots.visual = some c →
      s.config.operator? c.operator = some op → op.action ≠ .repeatLast) ∧
    ∀ depth ≥ 1, (∀ text, s.typeKeysWithin depth text = some (s.typeKeys text)) ∧
      ∀ key, s.handleWithin depth key = some (s.handle key) := by
  have hversed := h.versed
  constructor
  · rintro c op (hslot | hslot) hop
    · exact Editor.action_ne_of_isEdit (hversed.edits (m := .normal) hslot) hop
    · exact Editor.action_ne_of_isEdit (hversed.edits (m := .visual) hslot) hop
  · intro depth hdepth
    obtain ⟨depth, rfl⟩ := Nat.exists_eq_add_of_le' hdepth
    exact ⟨Editor.typeKeysWithin_succ hversed depth, handleWithin_succ hversed depth⟩

/-- A repeated edit is nested once, and with no room for it there is no end; and `.` bound to a host
command is remembered, as any edit is, and is no repetition then. -/
theorem repetition_nests_once_bound :
    let s := (start ['a', 'b', 'c'] 5 {} {} (.memory none) none).operate (.typeKeys ['x'])
    let config : Config := { commandBindings := .ofList [(".", ["redo"])] }
    let t := (start ['a'] 5 config {} (.memory none) none).operate (.typeKeys ['.'])
    (s.typeKeysWithin 0 ['.']).isNone = true ∧
      s.typeKeysWithin 1 ['.'] = some (s.typeKeys ['.']) ∧
      (s.typeKeys ['.']).buffer.text = ['c'] ∧
      t.slots.normal = some { operator := '.' } ∧
      (∀ op, t.config.operator? '.' = some op → op.action ≠ .repeatLast) ∧
      t.handleWithin 1 (.char '.') = some (t.handle (.char '.')) := by
  intro s config t
  have hs : Run [s, _] := (Run.start ..).next (.key 'x')
  have ht : Run [t, start ['a'] 5 config {} (.memory none) none] := (Run.start ..).next (.key '.')
  have hnone : (s.typeKeysWithin 0 ['.']).isNone = true := by decide +kernel
  have htext : (s.typeKeys ['.']).buffer.text = ['c'] := by decide +kernel
  have hslot : t.slots.normal = some { operator := '.' } := by decide +kernel
  clear_value s t
  obtain ⟨-, hsends⟩ := repetition_nests_once hs
  obtain ⟨hno, htends⟩ := repetition_nests_once ht
  exact ⟨hnone, (hsends 1 (Nat.le_refl 1)).1 ['.'], htext, hslot,
    fun op hop => hno _ op (.inl hslot) hop, (htends 1 (Nat.le_refl 1)).2 (.char '.')⟩

end Session

end ModalEditor
