import ModalEditor.Proofs.Spelling

/-!
# Readers in cells

A reader is what has been read of a command.  Kept in memory it is a number of cells instead: in
normal mode a stage, the operator, the motion, two counts and the keys typed so far
(`NormalCells`), in visual mode a mark that an argument is awaited, the operator, one count and the
keys (`VisualCells`).  The counts are numbers, cut down at every digit, and each key that is taken
sets some of the cells and is written down beside them; nothing says that the cells agree.

A `KeyReader` is any way to read keys, and `KeyReader.Follows` says that one of them does in its own
states what another one does.  The cells follow the readers (`NormalReader.follows_cells`,
`VisualReader.follows_cells`).  They read by any table of operators, and by the table without
operators that take a range the two modes are read alike (`VisualCells.answers_withoutRanges`).
-/

namespace ModalEditor

/-! ### Reading keys -/

/-- A way to read keys: some of the keys read are pending, and a key may complete a command. -/
structure KeyReader (σ : Type) where
  /-- Nothing has been read. -/
  initial : σ
  read : σ → Char → σ × Option Command
  pending : σ → List Char

namespace KeyReader

variable {σ τ : Type} (k : KeyReader σ)

/-- The state that keys lead to from `s`. -/
def after (s : σ) (keys : List Char) : σ := keys.foldl (fun s c => (k.read s c).1) s

/-- What each key is answered by from `s`: the command that it completes, if any, and the keys that
are pending then. -/
def answers : σ → List Char → List (Option Command × List Char)
  | _, [] => []
  | s, c :: keys =>
    ((k.read s c).2, k.pending (k.read s c).1) :: answers (k.read s c).1 keys

variable {k}

@[simp] theorem after_nil (s : σ) : k.after s [] = s := rfl

theorem after_snoc (s : σ) (keys : List Char) (c : Char) :
    k.after s (keys ++ [c]) = (k.read (k.after s keys) c).1 :=
  List.foldl_append ..

theorem answers_snoc (s : σ) (keys : List Char) (c : Char) :
    k.answers s (keys ++ [c]) = k.answers s keys ++
      [((k.read (k.after s keys) c).2, k.pending (k.read (k.after s keys) c).1)] := by
  induction keys generalizing s with
  | nil => rfl
  | cons d keys ih =>
    show _ :: k.answers (k.read s d).1 (keys ++ [c]) = _
    rw [ih]
    rfl

/-- The reader `l` does on the states `f s` what `k` does on the states `s`. -/
structure Follows (k : KeyReader σ) (l : KeyReader τ) (f : σ → τ) : Prop where
  initial : l.initial = f k.initial
  read (s : σ) (c : Char) : l.read (f s) c = (f (k.read s c).1, (k.read s c).2)
  pending (s : σ) : l.pending (f s) = k.pending s

variable {l : KeyReader τ} {f : σ → τ}

theorem Follows.after (h : Follows k l f) (s : σ) (keys : List Char) :
    l.after (f s) keys = f (k.after s keys) := by
  induction keys using List.reverseRecOn with
  | nil => rfl
  | append_singleton keys c ih => rw [after_snoc, ih, h.read, after_snoc]

theorem Follows.answers (h : Follows k l f) (s : σ) (keys : List Char) :
    l.answers (f s) keys = k.answers s keys := by
  induction keys generalizing s with
  | nil => rfl
  | cons c keys ih =>
    show ((l.read (f s) c).2, l.pending (l.read (f s) c).1) :: l.answers (l.read (f s) c).1 keys = _
    rw [h.read, h.pending, ih]
    rfl

end KeyReader

/-! ### Counts -/

/-- The number that the digits typed so far stand for, before the first of them nothing. -/
abbrev CountCell := Option Nat

namespace CountCell

/-- The number with the digit `c` after it, if `c` is one; no number begins with zero. -/
def next? (n : CountCell) (c : Char) : Option Nat :=
  if c.isDigit then
    match n with
    | none => if c = '0' then none else some (Digits.value c)
    | some n => some (min (n * 10 + Digits.value c) Digits.maximum)
  else none

/-- The count: one if no digit has been typed. -/
def count (n : CountCell) : Nat := n.getD 1

@[simp] theorem count_none : count none = 1 := rfl

end CountCell

namespace Digits

/-- The cell that holds the digits. -/
def cell (ds : Digits) : CountCell :=
  if ds.isEmpty then none else some (ds.foldl (fun n c => min (n * 10 + value c) maximum) 0)

@[simp] theorem cell_nil : cell [] = none := rfl

@[simp] theorem count_cell (ds : Digits) : ds.cell.count = ds.count := by
  cases ds <;> rfl

theorem value_le (h : c.isDigit = true) : value c ≤ 9 := by
  have hdigit := (Char.isDigit_iff_toNat.1 h).2
  have hnine : '9'.toNat = '0'.toNat + 9 := rfl
  rw [value]
  omega

/-- A digit changes the cell as it changes the digits. -/
theorem next?_cell (ds : Digits) (c : Char) :
    ds.cell.next? c = if ds.accepts c then (ds ++ [c] : Digits).cell else none := by
  cases hdigit : c.isDigit with
  | false => simp [CountCell.next?, accepts, hdigit]
  | true =>
    cases ds with
    | nil =>
      have hvalue : min (value c) maximum = value c := by
        have hle := value_le hdigit
        simp only [maximum]
        omega
      by_cases hzero : c = '0'
      · simp [CountCell.next?, accepts, cell, hzero]
      · simp [CountCell.next?, accepts, cell, hdigit, hzero, hvalue]
    | cons d ds => simp [CountCell.next?, accepts, cell, hdigit]

end Digits

/-! ### Cells in normal mode -/

/-- What is read next. -/
inductive Stage where
  | operator
  | motion
  | argument
deriving DecidableEq, Repr

/-- What has been read of a command in normal mode, cell by cell. -/
structure NormalCells where
  stage : Stage := .operator
  operator : Option Char := none
  motion : Option Char := none
  count : CountCell := none
  motionCount : CountCell := none
  /-- The keys read. -/
  keys : List Char := []
deriving DecidableEq, Repr

namespace NormalCells

/-- The command that the cells make, without an argument. -/
def command (x : NormalCells) (isVirtual : Bool) : Command where
  operator := x.operator.getD '\x00'
  motion := x.motion
  count := x.count.count
  motionCount := x.motionCount.count
  isVirtual

/-- Read a key where an operator is expected. -/
def readOperator (table : Char → Option Operator) (x : NormalCells) (c : Char) :
    NormalCells × Option Command :=
  match x.count.next? c with
  | some n => ({ x with count := some n, keys := x.keys ++ [c] }, none)
  | none =>
    match table c with
    | none => (x, none)
    | some op =>
      let x := { x with operator := some c, keys := x.keys ++ [c] }
      match op.arity with
      | .alone => ({}, some (x.command false))
      | .standIn => ({}, some (x.command true))
      | .range => ({ x with stage := .motion }, none)
      | .argument => ({ x with stage := .argument }, none)

/-- Read a key where a motion is expected. -/
def readMotion (x : NormalCells) (c : Char) : NormalCells × Option Command :=
  match x.motionCount.next? c with
  | some n => ({ x with motionCount := some n, keys := x.keys ++ [c] }, none)
  | none =>
    if x.operator = some c then ({}, some ({ x with motion := some c }.command false))
    else
      match MotionKey.ofChar? c with
      | none => (x, none)
      | some m =>
        if m.takesArgument then
          ({ x with stage := .argument, motion := some c, keys := x.keys ++ [c] }, none)
        else ({}, some ({ x with motion := some c }.command false))

/-- Read a key by a table of operators. -/
def read (table : Char → Option Operator) (x : NormalCells) (c : Char) :
    NormalCells × Option Command :=
  match x.stage with
  | .operator => x.readOperator table c
  | .motion => x.readMotion c
  | .argument => ({}, some { x.command false with argument := some c })

/-- Reading by a table of operators. -/
def reader (table : Char → Option Operator) : KeyReader NormalCells := ⟨{}, read table, keys⟩

end NormalCells

namespace NormalReader

/-- Reading by the settings. -/
def reader (config : Config) : KeyReader NormalReader := ⟨initial, read config, pending⟩

/-- The reader, cell by cell. -/
def cells : NormalReader → NormalCells
  | operator ds => { count := ds.cell, keys := ds }
  | motion ds op es =>
    { stage := .motion, operator := some op, count := ds.cell, motionCount := es.cell
      keys := ds ++ op :: es }
  | argument ds op none =>
    { stage := .argument, operator := some op, count := ds.cell, keys := ds ++ [op] }
  | argument ds op (some (es, m)) =>
    { stage := .argument, operator := some op, motion := some m, count := ds.cell
      motionCount := es.cell, keys := ds ++ op :: es ++ [m] }

theorem readOperator_cells (config : Config) (ds : Digits) (c : Char) :
    (operator ds).cells.readOperator config.operator? c =
      ((read config (operator ds) c).1.cells, (read config (operator ds) c).2) := by
  have hnext : (operator ds).cells.count.next? c = _ := ds.next?_cell c
  rw [NormalCells.readOperator, hnext]
  cases hc : ds.accepts c with
  | true => simp [read, hc, cells, Digits.cell]
  | false =>
    cases hop : config.operator? c with
    | none => simp [read, hc, hop]
    | some op =>
      cases harity : op.arity with
      | alone | standIn =>
        simp [read, hc, hop, harity, initial, cells, NormalCells.command]
      | range | argument => simp [read, hc, hop, harity, cells]

theorem readMotion_cells (config : Config) (ds : Digits) (op : Char) (es : Digits) (c : Char) :
    (motion ds op es).cells.readMotion c =
      ((read config (motion ds op es) c).1.cells, (read config (motion ds op es) c).2) := by
  have hnext : (motion ds op es).cells.motionCount.next? c = _ := es.next?_cell c
  rw [NormalCells.readMotion, hnext]
  cases hc : es.accepts c with
  | true => simp [read, hc, cells, Digits.cell]
  | false =>
    by_cases hop : op = c
    · subst hop
      simp [read, hc, initial, cells, NormalCells.command]
    · cases hm : MotionKey.ofChar? c with
      | none => simp [read, hc, hop, Ne.symm hop, hm, cells]
      | some m =>
        cases harg : m.takesArgument with
        | true => simp [read, hc, hop, Ne.symm hop, hm, harg, cells]
        | false =>
          simp [read, hc, hop, Ne.symm hop, hm, harg, initial, cells, NormalCells.command]

/-- **The cells follow the reader.** -/
theorem follows_cells (config : Config) :
    (reader config).Follows (NormalCells.reader config.operator?) cells where
  initial := rfl
  read r c := by
    show r.cells.read config.operator? c = ((r.read config c).1.cells, (r.read config c).2)
    rcases r with ds | ⟨ds, op, es⟩ | ⟨ds, op, _ | ⟨es, m⟩⟩
    · exact readOperator_cells config ds c
    · exact readMotion_cells config ds op es c
    · simp [NormalCells.read, read, initial, cells, NormalCells.command]
    · simp [NormalCells.read, read, initial, cells, NormalCells.command]
  pending r := by
    rcases r with ds | ⟨ds, op, es⟩ | ⟨ds, op, _ | ⟨es, m⟩⟩ <;> rfl

end NormalReader

/-! ### Cells in visual mode -/

/-- What has been read of a command in visual mode, cell by cell. -/
structure VisualCells where
  /-- The argument of the operator comes next. -/
  awaitsArgument : Bool := false
  operator : Option Char := none
  count : CountCell := none
  /-- The keys read. -/
  keys : List Char := []
deriving DecidableEq, Repr

namespace VisualCells

/-- The command that the cells make, without an argument. -/
def command (x : VisualCells) (isVirtual : Bool) : Command where
  operator := x.operator.getD '\x00'
  count := x.count.count
  isVirtual

/-- Read a key by a table of operators. -/
def read (table : Char → Option Operator) (x : VisualCells) (c : Char) :
    VisualCells × Option Command :=
  if x.awaitsArgument then ({}, some { x.command false with argument := some c })
  else
    match x.count.next? c with
    | some n => ({ x with count := some n, keys := x.keys ++ [c] }, none)
    | none =>
      match table c with
      | none => (x, none)
      | some op =>
        let x := { x with operator := some c }
        match op.arity with
        | .alone | .range => ({}, some (x.command false))
        | .standIn => ({}, some (x.command true))
        | .argument => ({ x with awaitsArgument := true, keys := x.keys ++ [c] }, none)

/-- Reading by a table of operators. -/
def reader (table : Char → Option Operator) : KeyReader VisualCells := ⟨{}, read table, keys⟩

/-- The cells of normal mode that hold the same. -/
def normal (x : VisualCells) : NormalCells where
  stage := if x.awaitsArgument then .argument else .operator
  operator := x.operator
  count := x.count
  keys := x.keys

end VisualCells

namespace VisualReader

/-- Reading by the settings. -/
def reader (config : Config) : KeyReader VisualReader := ⟨initial, read config, pending⟩

/-- The reader, cell by cell. -/
def cells : VisualReader → VisualCells
  | operator ds => { count := ds.cell, keys := ds }
  | argument ds op =>
    { awaitsArgument := true, operator := some op, count := ds.cell, keys := ds ++ [op] }

theorem read_cells_operator (config : Config) (ds : Digits) (c : Char) :
    (operator ds).cells.read config.operator? c =
      ((read config (operator ds) c).1.cells, (read config (operator ds) c).2) := by
  have hnext : (operator ds).cells.count.next? c = _ := ds.next?_cell c
  rw [VisualCells.read, if_neg (by simp [cells]), hnext]
  cases hc : ds.accepts c with
  | true => simp [read, hc, cells, Digits.cell]
  | false =>
    cases hop : config.operator? c with
    | none => simp [read, hc, hop]
    | some op =>
      cases harity : op.arity with
      | alone | range | standIn =>
        simp [read, hc, hop, harity, initial, cells, VisualCells.command]
      | argument => simp [read, hc, hop, harity, cells]

/-- **The cells follow the reader.** -/
theorem follows_cells (config : Config) :
    (reader config).Follows (VisualCells.reader config.operator?) cells where
  initial := rfl
  read r c := by
    show r.cells.read config.operator? c = ((r.read config c).1.cells, (r.read config c).2)
    rcases r with ds | ⟨ds, op⟩
    · exact read_cells_operator config ds c
    · simp [VisualCells.read, read, initial, cells, VisualCells.command]
  pending r := by
    rcases r with ds | ⟨ds, op⟩ <;> rfl

end VisualReader

/-! ### Without motions -/

/-- The operator, with nothing to follow it if that was a range. -/
def Operator.withoutRange (op : Operator) : Operator :=
  if op.arity = .range then { op with arity := .alone } else op

/-- The table in which no operator is followed by a range. -/
def withoutRanges (table : Char → Option Operator) (c : Char) : Option Operator :=
  (table c).map Operator.withoutRange

namespace VisualCells

/-- **Without operators that take a range, normal mode follows visual mode.** -/
theorem follows_normal (table : Char → Option Operator) :
    (reader table).Follows (NormalCells.reader (withoutRanges table)) normal where
  initial := rfl
  read x c := by
    show x.normal.read (withoutRanges table) c = ((x.read table c).1.normal, (x.read table c).2)
    cases hx : x.awaitsArgument with
    | true => simp [NormalCells.read, read, normal, hx, NormalCells.command, command]
    | false =>
      have hstage : x.normal.read (withoutRanges table) c =
          x.normal.readOperator (withoutRanges table) c := by simp [NormalCells.read, normal, hx]
      have hcount : x.normal.count = x.count := rfl
      rw [hstage, NormalCells.readOperator, hcount, read, if_neg (by simp [hx])]
      cases hn : x.count.next? c with
      | some n => simp [normal, hx]
      | none =>
        cases hop : table c with
        | none => simp [withoutRanges, hop]
        | some op =>
          cases harity : op.arity with
          | alone | range | standIn | argument =>
            simp [withoutRanges, hop, Operator.withoutRange, harity, normal, hx,
              NormalCells.command, command]
  pending _ := rfl

/-- **Visual mode reads as normal mode does without motions.**  Let the operators that take a range
take nothing: then from the start, whatever the keys are, reading in normal mode completes the same
commands at the same keys as reading in visual mode does by the full table, and after each key the
same keys are pending.  Both are the readers of the editor, cell by cell. -/
theorem answers_withoutRanges (config : Config) (keys : List Char) :
    (reader config.operator?).answers {} keys =
        (NormalCells.reader (withoutRanges config.operator?)).answers {} keys ∧
      (reader config.operator?).answers {} keys =
        (VisualReader.reader config).answers .initial keys ∧
      (NormalCells.reader config.operator?).answers {} keys =
        (NormalReader.reader config).answers .initial keys :=
  ⟨((follows_normal config.operator?).answers {} keys).symm,
    (VisualReader.follows_cells config).answers .initial keys,
    (NormalReader.follows_cells config).answers .initial keys⟩

end VisualCells

end ModalEditor
