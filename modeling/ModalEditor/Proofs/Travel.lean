import ModalEditor.Proofs.Motion
import ModalEditor.Proofs.Spelling
import ModalEditor.Proofs.View

/-!
# Motions that lead from place to place

A `Travel` is a motion that leads to one place, with the character it looks for.  Its keys spell two
commands: the motion of an operator (`Travel.spells_range`) and, alone, a movement of the cursor
(`Travel.spells_movement`).

Typing a spelling in normal mode dispatches its command (`Editor.foldl_typeKey_of_spells`).  A
movement is planned and run again for each step; wherever moving leads from place to place
(`Roams`), all the steps together lead to where the iterated motion does
(`Editor.at_dispatch_travel`).
-/

namespace ModalEditor

/-- A motion that leads to one place, with the character that it looks for if there is one. -/
inductive Travel where
  | plain (m : Motion)
  | search (s : Search) (c : Char)

namespace Command

/-- After an operator, a counted motion completes a command on a range. -/
theorem spells_motion {config : Config} {op k : Char} {ds : Digits} {m : MotionKey}
    {argument : Option Char} (h : Opens config .range [] op) (hds : ds.IsCount)
    (hk : MotionKey.ofChar? k = some m) (hargument : m.takesArgument = argument.isSome) :
    Spells config (op :: (ds ++ k :: argument.toList))
      { operator := op, motion := some k, motionCount := ds.amount, argument } := by
  cases argument with
  | none => simpa [Digits.amount] using Spells.motion h hds hk hargument
  | some c => simpa [Digits.amount] using Spells.motionArgument h hds hk hargument c

end Command

namespace Travel

/-- The motion after an operator. -/
def motionKey : Travel → MotionKey
  | plain m => .plain m
  | search s _ => .search s

/-- The character that the motion looks for. -/
def argument : Travel → Option Char
  | plain _ => none
  | search _ c => some c

/-- The motion as an operator of its own. -/
def operator : Travel → Operator
  | plain m => .moving m
  | search s _ => ⟨.argument, .movement, .search s⟩

theorem kind_operator (t : Travel) : t.operator.kind = .movement := by cases t <;> rfl

theorem arity_operator (t : Travel) : t.operator.arity ≠ .range := by
  cases t <;> simp [operator, Operator.moving]

/-- Where the motion leads. -/
def target (t : Travel) (ls : Lines) (separators : List Char) (p : Position) : Position :=
  match t with
  | plain m => m.target ls separators p
  | search s c => s.target ls p c

theorem directed (t : Travel) (ls : Lines) (separators : List Char) :
    ls.Directed (t.target ls separators) := by
  cases t with
  | plain m => exact m.directed ls separators
  | search s c => exact s.directed ls c

/-- After an operator, the counted motion covers the stretch to where it leads. -/
theorem reach?_eq (t : Travel) {ls : Lines} (separators : List Char) {p : Position}
    (hp : ls.InRange p) {n : Nat} (hn : 1 ≤ n) :
    t.motionKey.reach? ls separators t.argument n p =
      some (.between p ((t.target ls separators)^[n] p)) := by
  refine MotionKey.reach?_eq (fun q => ?_) (t.directed ls separators) hp hn
  cases t <;> rfl

/-- As a command of its own, the motion moves the cursor. -/
theorem action_run (t : Travel) (replay : Editor → Editor) {p : Plan}
    (hoperator : p.operator = t.operator) (hargument : p.argument = t.argument) (e : Editor) :
    Action.run replay p e =
      (e.moveTo (t.target e.lines e.separators e.buffer.clampedCursor), none) := by
  cases t <;> simp only [Action.run, hoperator, hargument] <;> rfl

/-! ### Spelling motions -/

/-- The keys that spell the motion. -/
def Spells (t : Travel) (k : Char) : Prop :=
  MotionKey.ofChar? k = some t.motionKey ∧ Operator.builtin? k = some t.operator

/-- The keys for moving without an argument, and `f` and `F` with one, spell motions. -/
theorem exists_spells {k : Char} {argument : Option Char}
    (h : k ∈ ['w', 'b', 'h', 'j', 'k', 'l', 'e', 's', 'D', 'U'] ∧ argument = none ∨
      k ∈ ['f', 'F'] ∧ argument.isSome) :
    ∃ t : Travel, t.argument = argument ∧ t.Spells k := by
  rcases h with ⟨hk, rfl⟩ | ⟨hk, hargument⟩
  · simp only [List.mem_cons, List.not_mem_nil, or_false] at hk
    rcases hk with rfl | rfl | rfl | rfl | rfl | rfl | rfl | rfl | rfl | rfl <;>
      exact ⟨.plain _, rfl, rfl, rfl⟩
  · obtain ⟨c, rfl⟩ := Option.isSome_iff_exists.1 hargument
    simp only [List.mem_cons, List.not_mem_nil, or_false] at hk
    rcases hk with rfl | rfl <;> exact ⟨.search _ c, rfl, rfl, rfl⟩

variable {t : Travel} {config : Config} {k op : Char} {ds : Digits}

/-- After the operator `op`, a counted motion completes a command on a range. -/
theorem spells_range (h : Command.Opens config .range [] op) (hds : ds.IsCount)
    (ht : t.Spells k) :
    Command.Spells config (op :: (ds ++ k :: t.argument.toList))
      { operator := op, motion := some k, motionCount := ds.amount, argument := t.argument } :=
  Command.spells_motion h hds ht.1 (by cases t <;> rfl)

/-- A counted motion is a command of its own. -/
theorem spells_movement (hop : config.operator? k = some t.operator) (hds : ds.IsCount)
    (ht : t.Spells k) :
    Command.Spells config (ds ++ k :: t.argument.toList)
      { operator := k, count := ds.amount, argument := t.argument } := by
  have hopens {a : Arity} (ha : t.operator.arity = a) : Command.Opens config a ds k :=
    ⟨hds, .of_isDigit (MotionKey.isDigit_of_ofChar? ht.1), by rw [hop, Option.map_some, ha]⟩
  cases t with
  | plain m =>
    have hspells := Command.Spells.alone (hopens rfl)
    simpa [argument] using hspells
  | search s c =>
    have hspells := Command.Spells.argument (hopens rfl) c
    simpa [argument] using hspells

end Travel

namespace Editor

variable {e : Editor} {keys : List Char}

theorem with_phase_self {x : Phase} (h : e.phase = x) : { e with phase := x } = e := by
  subst h; rfl

/-- Keys that complete nothing are read. -/
theorem foldl_typeKey_of_none (hphase : e.phase = .normal .initial)
    (h : ∀ o ∈ (Reading.ofKeys e.config keys).completed, o = none) :
    keys.foldl typeKey e = { e with phase := .normal (Reading.ofKeys e.config keys).reader } := by
  induction keys using List.reverseRecOn with
  | nil => exact (with_phase_self hphase).symm
  | append_singleton keys c ih =>
    rw [Reading.ofKeys_snoc, Reading.read] at h ⊢
    simp only [List.mem_append, List.mem_singleton] at h
    have hlast := h _ (.inr rfl)
    rw [List.foldl_append, ih fun o ho => h o (.inl ho)]
    simp only [List.foldl_cons, List.foldl_nil, typeKey, hlast, dispatch?]

/-- **Typing a spelling dispatches its command.** -/
theorem foldl_typeKey_of_spells {d : Command} (hphase : e.phase = .normal .initial)
    (h : Command.Spells e.config keys d) : keys.foldl typeKey e = e.dispatch d := by
  obtain ⟨front, c, r, rfl, htakes, hread⟩ := Reading.exists_takes_of_spells h
  have hfront : front.foldl typeKey e = { e with phase := .normal r } := by
    rw [foldl_typeKey_of_none hphase, htakes.reader]
    rw [htakes.completed]
    exact fun o ho => List.eq_of_mem_replicate ho
  rw [List.foldl_append, hfront]
  simp only [List.foldl_cons, List.foldl_nil, typeKey, hread, dispatch?, with_phase_self hphase]

end Editor

/-- Where a motion leads in the text and with the settings of a view. -/
def View.step (w : View) (t : Travel) : Position → Position :=
  t.target w.document.lines w.config.wordSeparators.toList

namespace Editor

variable {e : Editor} {c : Command} {k : Char} {r : NormalReader}

/-- Doubled, an operator works on the line of the cursor. -/
theorem target?_wholeLine (hphase : e.phase = .normal r) (hmotion : c.motion = some c.operator) :
    e.target? c = some (.ofLines e.lines e.buffer.cursor.line e.buffer.cursor.line) := by
  simp [target?, hphase, Command.isWholeLine, hmotion]

/-- With a motion, an operator works on the stretch that the motion covers. -/
theorem target?_motion {m : MotionKey} (hphase : e.phase = .normal r) (hmotion : c.motion = some k)
    (hne : k ≠ c.operator) (hk : MotionKey.ofChar? k = some m) :
    e.target? c = (m.reach? e.lines e.separators c.argument (max c.motionCount 1)
      e.buffer.cursor).map .ofSpan := by
  simp [target?, hphase, Command.isWholeLine, hmotion, hne, hk]

/-- Over a selection, an operator works on what is selected. -/
theorem target?_selected {anchor : Position} {lineWise : Bool} {reading : VisualReader}
    (hphase : e.phase = .visual anchor lineWise reading) (c : Command) :
    e.target? c = some (if lineWise then .ofLines e.lines e.buffer.selection.span.start.line
        e.buffer.selection.span.stop.line
      else .ofSpan e.buffer.selection.span) := by
  simp only [target?, hphase]

/-- An operator and a counted motion work on the stretch to where the motion leads. -/
theorem target?_travel {t : Travel} (hphase : e.phase = .normal r)
    (hp : e.lines.InRange e.buffer.cursor) (ht : t.Spells k) (hk : k ≠ c.operator)
    (hmotion : c.motion = some k) (hargument : c.argument = t.argument) :
    e.target? c = some (.ofSpan (.between e.buffer.cursor
      ((e.view.step t)^[max c.motionCount 1] e.buffer.cursor))) := by
  rw [target?_motion hphase hmotion hk ht.1, hargument,
    t.reach?_eq e.separators hp (by omega)]
  rfl

end Editor

/-! ### Moving again and again -/

/-- In the mode `m`, moving an editor leads from place to place: the views `At p` are those with the
cursor at `p`, all of the same lines and settings. -/
structure Roams (ls : Lines) (config : Config) (m : Mode) (At : Position → View → Prop) : Prop where
  lines {p : Position} {v : View} (h : At p v) : v.document.lines = ls
  cursor {p : Position} {v : View} (h : At p v) : v.document.cursor = p
  config {p : Position} {v : View} (h : At p v) : v.config = config
  mode {p : Position} {v : View} (h : At p v) : v.phase.mode = m
  moveTo {p q : Position} {e : Editor} (h : At p e.view) (hq : ls.InRange q) :
    At q (e.moveTo q).view

namespace Editor

variable {y : Editor} {t : Travel} {replay : Editor → Editor}

theorem runPlan_travel {plan : Plan} (hoperator : plan.operator = t.operator)
    (hargument : plan.argument = t.argument) :
    runPlan replay plan y =
      (y.moveTo (t.target y.lines y.separators y.buffer.clampedCursor), none) := by
  rw [runPlan, t.action_run replay hoperator hargument]
  have hkind : plan.operator.kind ≠ .edit := by rw [hoperator, t.kind_operator]; decide
  simp [hkind]

variable {ls : Lines} {config : Config} {m : Mode} {At : Position → View → Prop} {q : Position}

/-- Each run of a motion leads one step on. -/
theorem at_repeatPlan_travel (hroams : Roams ls config m At) {c : Command}
    (hop : config.operator? c.operator = some t.operator) (hargument : c.argument = t.argument)
    (hvirtual : c.isVirtual = false) (n : Nat) {plan : Plan} (hq : ls.InRange q)
    (hplan : plan.operator = t.operator ∧ plan.argument = t.argument) (hy : At q y.view) :
    At ((t.target ls config.wordSeparators.toList)^[n] q)
      (repeatPlan replay c m n plan y).view := by
  induction n generalizing y q plan with
  | zero => exact hy
  | succ n ih =>
    have hlines : y.lines = ls := hroams.lines hy
    have hcursor : y.buffer.clampedCursor = q := by
      have hcursor : y.buffer.cursor = q := hroams.cursor hy
      rw [Buffer.clampedCursor, hcursor]
      exact (congrArg (Lines.clamp · q) hlines).trans (Lines.clamp_of_inRange hq)
    have hconfig : y.config = config := hroams.config hy
    let next := t.target ls config.wordSeparators.toList
    -- Where the step leads is decided by the view alone.
    have htarget : t.target y.lines y.separators y.buffer.clampedCursor = next q := by
      rw [hlines, hcursor, separators, hconfig]
    have hnext : ls.InRange (next q) := (t.directed _ _).1 q hq
    have hmoved := hroams.moveTo hy hnext
    have hmode : (y.moveTo (next q)).mode = m := hroams.mode hmoved
    have hop' : (y.moveTo (next q)).config.operator? c.operator = some t.operator := by
      rw [show (y.moveTo (next q)).config = config from hroams.config hmoved, hop]
    -- The mode goes on, so the motion is planned and run again.
    rw [repeatPlan, runPlan_travel hplan.1 hplan.2, htarget]
    simp only [hmode, if_true, plan?_of_arity hop' t.arity_operator hvirtual,
      Function.iterate_succ_apply]
    exact ih hnext ⟨rfl, hargument⟩ hmoved

/-- A counted motion that is dispatched leads on by all its steps. -/
theorem at_dispatch_travel (hroams : Roams ls config m At) {c : Command} (hq : ls.InRange q)
    (hop : config.operator? c.operator = some t.operator) (hargument : c.argument = t.argument)
    (hvirtual : c.isVirtual = false) (hy : At q y.view) :
    At ((t.target ls config.wordSeparators.toList)^[max c.count 1] q) (y.dispatch c).view := by
  have hprepare : At q (y.prepare c).view := by rwa [view_prepare]
  have hop' : (y.prepare c).config.operator? c.operator = some t.operator := by
    rw [show (y.prepare c).config = config from hroams.config hprepare, hop]
  have hmode : (y.prepare c).mode = m := hroams.mode hprepare
  rw [view_dispatch, run, runWith, plan?_of_arity hop' t.arity_operator hvirtual, hmode]
  exact at_repeatPlan_travel hroams hop hargument hvirtual _ hq ⟨rfl, hargument⟩ hprepare

end Editor

end ModalEditor
