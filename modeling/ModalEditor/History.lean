/-!
# Undo history

A `History` remembers states before changes and states undone, newest first, and at most `limit`
states before changes.  `checkpoint` records the state before a change and forgets what was
undone; `undo` and `redo` move one step, given the current state.

Between `beginGroup` and `endGroup` only the first checkpoint is recorded, so that all changes
of a group undo together.
-/

namespace ModalEditor

/-- Whether changes are being grouped. -/
inductive Grouping where
  /-- Each change stands alone. -/
  | closed
  /-- A group has begun and has no checkpoint yet. -/
  | begun
  /-- A group has begun and its checkpoint is recorded. -/
  | recorded
deriving DecidableEq, Repr

/-- A bounded linear history of states of type `α`. -/
structure History (α : Type) where
  /-- How many states before changes are kept. -/
  limit : Nat
  /-- States before changes, newest first. -/
  past : List α := []
  /-- Undone states, the next to redo first. -/
  future : List α := []
  grouping : Grouping := .closed
deriving DecidableEq, Repr

namespace History

variable {α : Type} (h : History α)

/-- A step back is possible. -/
def canUndo : Bool := !h.past.isEmpty

/-- A step forward is possible. -/
def canRedo : Bool := !h.future.isEmpty

/-- Begin a group, unless one has begun. -/
def beginGroup : History α :=
  match h.grouping with
  | .closed => { h with grouping := .begun }
  | _ => h

/-- End the group, if one has begun. -/
def endGroup : History α := { h with grouping := .closed }

/-- Record `before`, the state a change is about to replace.  With limit zero nothing is
recorded. -/
def checkpoint (before : α) : History α :=
  if h.limit = 0 then h
  else
    match h.grouping with
    | .closed => { h with past := (before :: h.past).take h.limit, future := [] }
    | .begun =>
      { h with past := (before :: h.past).take h.limit, future := [], grouping := .recorded }
    | .recorded => { h with future := [] }

/-- The state to go back to, with `current` kept for redoing.  Ends the group. -/
def undo (current : α) : Option α × History α :=
  match h.past with
  | [] => (none, h.endGroup)
  | before :: past => (some before, { h.endGroup with past, future := current :: h.future })

/-- The state to go forward to, with `current` kept for undoing.  Ends the group. -/
def redo (current : α) : Option α × History α :=
  match h.future with
  | [] => (none, h.endGroup)
  | next :: future => (some next, { h.endGroup with past := current :: h.past, future })

variable {h}

theorem canUndo_iff : h.canUndo = true ↔ ∃ before past, h.past = before :: past := by
  cases hp : h.past <;> simp [canUndo, hp]

theorem canRedo_iff : h.canRedo = true ↔ ∃ next future, h.future = next :: future := by
  cases hf : h.future <;> simp [canRedo, hf]

end History

end ModalEditor
