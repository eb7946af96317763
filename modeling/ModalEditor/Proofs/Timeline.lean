import Mathlib.Logic.Function.Iterate
import ModalEditor.Proofs.Calls

/-!
# The history as a bounded timeline

With the current state between its two stacks, a history is a `Timeline`: the states before, the
present one, and the states after.  Undoing moves the present one state back along it and redoing
one state forward (`History.undo_eq`, `History.redo_eq`), so each takes back the other, in whatever
way the history has come about.

Undoing and redoing neither add states nor lose any; recording is what trims.  The bound on the
number of states is therefore kept by each call (`History.Bounded.call`) and holds after every
sequence of calls.
-/

namespace ModalEditor

/-! ### Timelines -/

/-- A state with the states before it and the states after it, the nearest first. -/
structure Timeline (α : Type) where
  past : List α
  present : α
  future : List α
deriving DecidableEq, Repr

namespace Timeline

variable {α : Type} {t u : Timeline α}

/-- One state back, if there is one. -/
def back (t : Timeline α) : Option (Timeline α) :=
  match t.past with
  | [] => none
  | before :: past => some ⟨past, before, t.present :: t.future⟩

/-- One state forward, if there is one. -/
def forward (t : Timeline α) : Option (Timeline α) :=
  match t.future with
  | [] => none
  | next :: future => some ⟨t.present :: t.past, next, future⟩

/-- How many states there are besides the present one. -/
def steps (t : Timeline α) : Nat := t.past.length + t.future.length

/-- A step forward is a step back, taken back. -/
theorem back_eq_some_iff : t.back = some u ↔ u.forward = some t := by
  obtain ⟨tp, x, tf⟩ := t
  obtain ⟨up, y, uf⟩ := u
  constructor
  · intro h
    cases tp with
    | nil => cases h
    | cons => cases h; rfl
  · intro h
    cases uf with
    | nil => cases h
    | cons => cases h; rfl

theorem steps_back (h : t.back = some u) : u.steps = t.steps := by
  obtain ⟨tp, x, tf⟩ := t
  cases tp with
  | nil => cases h
  | cons =>
    cases h
    simp only [steps, List.length_cons]
    omega

theorem steps_forward (h : t.forward = some u) : u.steps = t.steps :=
  (steps_back (back_eq_some_iff.2 h)).symm

end Timeline

/-! ### Histories -/

namespace History

variable {α : Type} {h h' : History α} {current : α}

/-- A call on a history. -/
inductive Call (α : Type) where
  | beginGroup
  | endGroup
  | checkpoint (before : α)
  | undo (current : α)
  | redo (current : α)
deriving DecidableEq, Repr

/-- Carry out a call. -/
def call (h : History α) : Call α → History α
  | .beginGroup => h.beginGroup
  | .endGroup => h.endGroup
  | .checkpoint before => h.checkpoint before
  | .undo current => (h.undo current).2
  | .redo current => (h.redo current).2

/-- Carry out calls in order. -/
def calls (h : History α) (cs : List (Call α)) : History α := cs.foldl call h

/-- The timeline through `current`. -/
def timeline (h : History α) (current : α) : Timeline α := ⟨h.past, current, h.future⟩

/-- The history around the present of a timeline, with no group open. -/
def along (h : History α) (t : Timeline α) : History α :=
  { h with past := t.past, future := t.future, grouping := .closed }

/-- To undo is to move back along the timeline. -/
theorem undo_eq (h : History α) (current : α) : h.undo current =
    match (h.timeline current).back with
    | none => (none, h.endGroup)
    | some t => (some t.present, h.along t) := by
  obtain ⟨limit, past, future, grouping⟩ := h
  cases past <;> rfl

/-- To redo is to move forward along the timeline. -/
theorem redo_eq (h : History α) (current : α) : h.redo current =
    match (h.timeline current).forward with
    | none => (none, h.endGroup)
    | some t => (some t.present, h.along t) := by
  obtain ⟨limit, past, future, grouping⟩ := h
  cases future <;> rfl

theorem undo_eq_some {x : α} (hundo : h.undo current = (some x, h')) :
    ∃ t, (h.timeline current).back = some t ∧ t.present = x ∧ h' = h.along t := by
  rw [undo_eq] at hundo
  cases hback : (h.timeline current).back with
  | none => rw [hback] at hundo; cases hundo
  | some t => rw [hback] at hundo; cases hundo; exact ⟨t, rfl, rfl, rfl⟩

theorem redo_eq_some {x : α} (hredo : h.redo current = (some x, h')) :
    ∃ t, (h.timeline current).forward = some t ∧ t.present = x ∧ h' = h.along t := by
  rw [redo_eq] at hredo
  cases hforward : (h.timeline current).forward with
  | none => rw [hforward] at hredo; cases hredo
  | some t => rw [hforward] at hredo; cases hredo; exact ⟨t, rfl, rfl, rfl⟩

/-- Redoing takes back an undo: what is left of it is that no group is open. -/
theorem redo_of_undo {x : α} (hundo : h.undo current = (some x, h')) :
    h'.redo x = (some current, h.endGroup) := by
  obtain ⟨t, hback, rfl, rfl⟩ := undo_eq_some hundo
  have hforward : ((h.along t).timeline t.present).forward = some (h.timeline current) :=
    Timeline.back_eq_some_iff.1 hback
  rw [redo_eq, hforward]
  rfl

/-- Undoing takes back a redo. -/
theorem undo_of_redo {x : α} (hredo : h.redo current = (some x, h')) :
    h'.undo x = (some current, h.endGroup) := by
  obtain ⟨t, hforward, rfl, rfl⟩ := redo_eq_some hredo
  have hback : ((h.along t).timeline t.present).back = some (h.timeline current) :=
    Timeline.back_eq_some_iff.2 hforward
  rw [undo_eq, hback]
  rfl

/-! ### The bound -/

/-- The history has this limit, and keeps no more states than that, on both sides together. -/
structure Bounded (limit : Nat) (h : History α) : Prop where
  limit_eq : h.limit = limit
  length_le : h.past.length + h.future.length ≤ limit

variable {limit : Nat}

theorem Bounded.along {t : Timeline α} (hb : h.Bounded limit)
    (ht : t.steps = (h.timeline current).steps) : (h.along t).Bounded limit := by
  obtain ⟨hlimit, hle⟩ := hb
  have hsteps : t.past.length + t.future.length = h.past.length + h.future.length := ht
  exact ⟨hlimit, Nat.le_trans (Nat.le_of_eq hsteps) hle⟩

/-- What is recorded takes the place of what was undone, and the oldest states go if there are too
many.  A group that has its checkpoint only forgets what was undone. -/
theorem Bounded.checkpoint (hb : h.Bounded limit) (before : α) :
    (h.checkpoint before).Bounded limit := by
  obtain ⟨rfl, hle⟩ := hb
  have htake : ((before :: h.past).take h.limit).length ≤ h.limit := List.length_take_le ..
  unfold History.checkpoint
  split
  · exact ⟨rfl, hle⟩
  · cases h.grouping with
    | closed => exact ⟨rfl, htake⟩
    | begun => exact ⟨rfl, htake⟩
    | recorded => exact ⟨rfl, Nat.le_trans (Nat.le_add_right ..) hle⟩

theorem Bounded.undo (hb : h.Bounded limit) (current : α) :
    (h.undo current).2.Bounded limit := by
  rw [undo_eq]
  cases hback : (h.timeline current).back with
  | none => exact ⟨hb.limit_eq, hb.length_le⟩
  | some t => exact hb.along (Timeline.steps_back hback)

theorem Bounded.redo (hb : h.Bounded limit) (current : α) :
    (h.redo current).2.Bounded limit := by
  rw [redo_eq]
  cases hforward : (h.timeline current).forward with
  | none => exact ⟨hb.limit_eq, hb.length_le⟩
  | some t => exact hb.along (Timeline.steps_forward hforward)

theorem Bounded.call (hb : h.Bounded limit) (c : Call α) : (h.call c).Bounded limit := by
  cases c with
  | beginGroup =>
    show h.beginGroup.Bounded limit
    unfold History.beginGroup
    cases h.grouping <;> exact ⟨hb.limit_eq, hb.length_le⟩
  | endGroup => exact ⟨hb.limit_eq, hb.length_le⟩
  | checkpoint before => exact hb.checkpoint before
  | undo current => exact hb.undo current
  | redo current => exact hb.redo current

theorem Bounded.calls (hb : h.Bounded limit) (cs : List (Call α)) :
    (h.calls cs).Bounded limit := by
  induction cs generalizing h with
  | nil => exact hb
  | cons c cs ih => exact ih (hb.call c)

/-- A new history is bounded, and so is what any calls make of it. -/
theorem bounded_calls_new (limit : Nat) (cs : List (Call α)) :
    (({ limit } : History α).calls cs).Bounded limit :=
  have hnew : ({ limit } : History α).Bounded limit := ⟨rfl, Nat.zero_le limit⟩
  hnew.calls cs

end History

/-! ### Buffers -/

namespace Buffer

variable {b : Buffer} {t : Timeline Document} {k : Nat}

/-- The documents of the history around the current one. -/
def timeline (b : Buffer) : Timeline Document := b.history.timeline b.document

/-- Undo `k` times. -/
def goBack (k : Nat) (b : Buffer) : Buffer := (fun b => b.undo.2)^[k] b

/-- Redo `k` times. -/
def goForward (k : Nat) (b : Buffer) : Buffer := (fun b => b.redo.2)^[k] b

theorem timeline_restore (b : Buffer) (d : Document) (h : History Document) :
    (b.restore d h).timeline = h.timeline d := by
  rw [timeline, restore, revealCursor, document_revealLine, history_revealLine]

/-- An undo that succeeds moves back along the timeline. -/
theorem back_timeline (hundo : b.undo.1 = true) :
    b.timeline.back = some b.undo.2.timeline := by
  cases hback : b.timeline.back with
  | none =>
    have heq : b.history.undo b.document = (none, b.history.endGroup) := by
      rw [History.undo_eq, show (b.history.timeline b.document).back = none from hback]
    rw [undo, heq] at hundo
    cases hundo
  | some t =>
    have heq : b.history.undo b.document = (some t.present, b.history.along t) := by
      rw [History.undo_eq, show (b.history.timeline b.document).back = some t from hback]
    rw [undo, heq]
    exact congrArg some (timeline_restore b t.present (b.history.along t)).symm

/-- Where the timeline goes on, a redo succeeds and moves forward along it. -/
theorem redo_of_forward (hforward : b.timeline.forward = some t) :
    b.redo.1 = true ∧ b.redo.2.timeline = t := by
  have heq : b.history.redo b.document = (some t.present, b.history.along t) := by
    rw [History.redo_eq, show (b.history.timeline b.document).forward = some t from hforward]
  rw [redo, heq]
  exact ⟨rfl, timeline_restore b t.present (b.history.along t)⟩

/-- After undoing `k` times, redoing `k` times leads back along the timeline, to where it began. -/
theorem timeline_goForward_goBack (hundo : ∀ i < k, (b.goBack i).undo.1 = true) :
    ((b.goBack k).goForward k).timeline = b.timeline := by
  induction k generalizing b with
  | zero => rfl
  | succ k ih =>
    -- All but the first undo are taken back first, by the induction.
    have hrest : ((b.undo.2.goBack k).goForward k).timeline = b.undo.2.timeline :=
      ih fun i hi => hundo (i + 1) (by omega)
    have hback := back_timeline (hundo 0 (by omega))
    have hforward : ((b.undo.2.goBack k).goForward k).timeline.forward = some b.timeline := by
      rw [hrest]
      exact Timeline.back_eq_some_iff.1 hback
    have hlast : (b.goBack (k + 1)).goForward (k + 1) =
        ((b.undo.2.goBack k).goForward k).redo.2 := Function.iterate_succ_apply' ..
    rw [hlast]
    exact (redo_of_forward hforward).2

/-- **The history is a bounded timeline.**  After any calls on a new history, it keeps no more
states than its limit, before and after together; an undo that yields a state is taken back by
redoing from that state, and a redo by undoing, with both stacks as they were.  In any buffer, if
`k` undos all succeed then `k` redos restore the lines and the selection, and what can be undone and
redone. -/
theorem history_timeline (limit : Nat) (cs : List (History.Call Document)) :
    let h := ({ limit } : History Document).calls cs
    h.past.length + h.future.length ≤ limit ∧
      (∀ current previous h', h.undo current = (some previous, h') →
        h'.redo previous = (some current, { h with grouping := .closed })) ∧
      (∀ current next h', h.redo current = (some next, h') →
        h'.undo next = (some current, { h with grouping := .closed })) ∧
      ∀ (b : Buffer) (k : Nat), (∀ i < k, (b.goBack i).undo.1 = true) →
        let r := (b.goBack k).goForward k
        r.lines = b.lines ∧ r.selection = b.selection ∧
          r.history.canUndo = b.history.canUndo ∧ r.history.canRedo = b.history.canRedo := by
  refine ⟨(History.bounded_calls_new limit cs).length_le, fun _ _ _ => History.redo_of_undo,
    fun _ _ _ => History.undo_of_redo, fun b k hundo => ?_⟩
  have htimeline := timeline_goForward_goBack hundo
  have hdocument := congrArg Timeline.present htimeline
  have hpast := congrArg (fun t : Timeline Document => !t.past.isEmpty) htimeline
  have hfuture := congrArg (fun t : Timeline Document => !t.future.isEmpty) htimeline
  exact ⟨congrArg Document.lines hdocument, congrArg Document.selection hdocument, hpast, hfuture⟩

/-- With room for two states, the oldest of three is lost; the two others are undone and redone. -/
theorem history_timeline_threeEdits :
    let d (c : Char) : Document := .ofText [c]
    let h := ({ limit := 2 } : History Document).calls
      [.checkpoint (d 'a'), .beginGroup, .checkpoint (d 'b'), .endGroup, .checkpoint (d 'c')]
    let b : Buffer := { document := d 'd', history := h }
    h.past = [d 'c', d 'b'] ∧ h.past.length + h.future.length ≤ 2 ∧
      (h.undo (d 'd')).2.redo (d 'c') = (some (d 'd'), h) ∧
      (b.goBack 2).lines = (d 'b').lines ∧ ((b.goBack 2).goForward 2).lines = b.lines := by
  intro d h b
  have hundo : h.undo (d 'd') = (some (d 'c'), (h.undo (d 'd')).2) := by decide +kernel
  have hall : ∀ i < 2, (b.goBack i).undo.1 = true := by decide +kernel
  have hpast : h.past = [d 'c', d 'b'] := by decide +kernel
  have hback : (b.goBack 2).lines = (d 'b').lines := by decide +kernel
  obtain ⟨hle, hredo, -, hbuffer⟩ := history_timeline 2
    [.checkpoint (d 'a'), .beginGroup, .checkpoint (d 'b'), .endGroup, .checkpoint (d 'c')]
  exact ⟨hpast, hle, hredo _ _ _ hundo, hback, (hbuffer b 2 hall).1⟩

end Buffer

end ModalEditor
