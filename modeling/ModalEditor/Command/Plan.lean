import ModalEditor.Editor

/-!
# Planning commands

Before a command runs it is turned into a `Plan`: the operator it names, how often that runs, and
the `Target` it works on, resolved against the cursor or the selection.  Planning changes nothing,
and is done again before each repetition.

A counted motion is applied again and again from where it last led (`MotionKey.reach?`); the
target covers all places visited.
-/

namespace ModalEditor

/-- What an operator works on. -/
structure Target where
  span : Span
  /-- The target is whole lines. -/
  lineWise : Bool
  /-- The first line that the target touches. -/
  first : Nat
  /-- The last line that the target touches. -/
  last : Nat
deriving DecidableEq, Repr

namespace Target

/-- The lines that the target touches. -/
def lineNumbers (t : Target) : List Nat := List.range' t.first (t.last + 1 - t.first)

/-- A target of characters. -/
def ofSpan (s : Span) : Target := ⟨s, false, s.start.line, s.stop.line⟩

/-- A target of whole lines. -/
def ofLines (ls : Lines) (first last : Nat) : Target :=
  ⟨ls.wholeLines first last, true, first, last⟩

end Target

/-- A command ready to run. -/
structure Plan where
  operator : Operator
  count : Nat
  target : Target
  argument : Option Char
deriving DecidableEq, Repr

namespace Span

/-- The end of a span that starts or stops at `p`, seen from `p`. -/
def farEnd (s : Span) (p : Position) : Position := if s.start = p then s.stop else s.start

end Span

namespace MotionKey

variable (m : MotionKey) (ls : Lines) (separators : List Char) (argument : Option Char)

/-- Go on `n` more times after a step from `p` over the span `step`, with `covered` passed over so
far.  A step that leads nowhere is the last one. -/
def reachFrom (n : Nat) (p : Position) (step covered : Span) : Option Span :=
  match n with
  | 0 => some covered
  | n + 1 =>
    let q := step.farEnd p
    if q = p then some covered
    else
      match m.span? ls separators q argument with
      | none => none
      | some step => reachFrom n q step (covered.cover step)

/-- The stretch that the motion covers when it is applied `count` times from `p`. -/
def reach? (count : Nat) (p : Position) : Option Span :=
  match m.span? ls separators p argument with
  | none => none
  | some step => m.reachFrom ls separators argument (count - 1) p step step

end MotionKey

namespace Editor

variable (e : Editor)

/-- What an operator with a range works on: in visual mode the selection, otherwise the stretch
that the motion of the command gives. -/
def target? (c : Command) : Option Target :=
  let cursor := e.buffer.cursor
  match e.phase with
  | .visual _ lineWise _ =>
    let s := e.buffer.selection.span
    some (if lineWise then .ofLines e.lines s.start.line s.stop.line else .ofSpan s)
  | _ =>
    match c.motion with
    | none => some (.ofSpan (.point cursor))
    | some k =>
      if c.isWholeLine then some (.ofLines e.lines cursor.line cursor.line)
      else
        match MotionKey.ofChar? k with
        | none => none
        | some m =>
          (m.reach? e.lines e.separators c.argument (max c.motionCount 1) cursor).map .ofSpan

/-- Plan a command.  There is no plan for a key without operator, or for a motion that does not
exist or lacks its argument. -/
def plan? (c : Command) : Option Plan :=
  match e.config.operator? c.operator with
  | none => none
  | some op =>
    let here : Target := .ofSpan (.point e.buffer.cursor)
    if c.isVirtual then some ⟨op, 1, here, c.argument⟩
    else
      match op.arity with
      | .range =>
        (e.target? c).map fun target =>
          ⟨op, if e.mode = .visual then 1 else max c.count 1, target, c.argument⟩
      | _ => some ⟨op, max c.count 1, here, c.argument⟩

end Editor

end ModalEditor
