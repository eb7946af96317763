import ModalEditor.Proofs.Cells
import ModalEditor.Proofs.ReaderCells

/-!
# Pending keys are the state of a reader

The keys of an incomplete command are shown to the user, and beside them stands what has been made
of them: the counts, the operator, the motion.  The shown keys tell it all.  Given to a fresh reader
they complete nothing and lead to the same cells again (`KeyReader.Orderly.readsBack`), because
every key is passed over and changes no cell, or is taken and pending from then on, or completes a
command, and then all cells are reset (`KeyReader.Step`).

So nothing is pending just when nothing has been read.  In a session with cells this goes for the
readers of both modes at once, although only the one of the current mode is asked
(`Cells.Consistent.pending_eq_nil_iff`).
-/

namespace ModalEditor

/-! ### Reading pending keys back -/

namespace KeyReader

variable {σ : Type} {k : KeyReader σ} {s : σ}

/-- A key is passed over, or taken, or it completes a command and nothing has been read of the next
one. -/
inductive Step (k : KeyReader σ) (s : σ) (c : Char) : σ × Option Command → Prop where
  | skip : Step k s c (s, none)
  | take {s' : σ} (h : k.pending s' = k.pending s ++ [c]) : Step k s c (s', none)
  | complete (d : Command) : Step k s c (k.initial, some d)

/-- A reader that begins with no keys pending, and deals with each key in one of the three ways. -/
structure Orderly (k : KeyReader σ) : Prop where
  initial : k.pending k.initial = []
  step (s : σ) (c : Char) : k.Step s c (k.read s c)

/-- The keys pending in `s` complete nothing when a fresh reader reads them, and lead to `s`. -/
structure ReadsBack (k : KeyReader σ) (s : σ) : Prop where
  silent : ∀ a ∈ k.answers k.initial (k.pending s), a.1 = none
  after : k.after k.initial (k.pending s) = s

theorem Orderly.readsBack_initial (h : k.Orderly) : k.ReadsBack k.initial := by
  constructor <;> simp [h.initial, answers]

theorem ReadsBack.read (hs : k.ReadsBack s) (h : k.Orderly) (c : Char) :
    k.ReadsBack (k.read s c).1 := by
  have hstep := h.step s c
  generalize hread : k.read s c = result at hstep
  cases hstep with
  | skip => exact hs
  | complete => exact h.readsBack_initial
  | @take s' hpending =>
    constructor
    · intro a ha
      rw [hpending, answers_snoc, hs.after, hread] at ha
      rcases List.mem_append.1 ha with ha | ha
      · exact hs.silent a ha
      · rw [List.mem_singleton.1 ha]
    · rw [hpending, after_snoc, hs.after, hread]

/-- **Whatever keys have been read, those that are pending lead to the same state.** -/
theorem Orderly.readsBack (h : k.Orderly) (keys : List Char) :
    k.ReadsBack (k.after k.initial keys) := by
  induction keys using List.reverseRecOn with
  | nil => exact h.readsBack_initial
  | append_singleton keys c ih =>
    rw [after_snoc]
    exact ih.read h c

theorem ReadsBack.pending_eq_nil_iff (hs : k.ReadsBack s) (h : k.Orderly) :
    k.pending s = [] ↔ s = k.initial := by
  constructor
  · intro hpending
    rw [← hs.after, hpending, after_nil]
  · rintro rfl
    exact h.initial

end KeyReader

/-! ### Both modes are orderly -/

theorem NormalCells.orderly (table : Char → Option Operator) : (reader table).Orderly where
  initial := rfl
  step x c := by
    show (reader table).Step x c (x.read table c)
    unfold read
    split
    · unfold readOperator
      split
      · exact .take rfl
      · split
        · exact .skip
        · dsimp only
          split
          · exact .complete _
          · exact .complete _
          · exact .take rfl
          · exact .take rfl
    · unfold readMotion
      split
      · exact .take rfl
      · split
        · exact .complete _
        · split
          · exact .skip
          · split
            · exact .take rfl
            · exact .complete _
    · exact .complete _

theorem VisualCells.orderly (table : Char → Option Operator) : (reader table).Orderly where
  initial := rfl
  step x c := by
    show (reader table).Step x c (x.read table c)
    unfold read
    split
    · exact .complete _
    · split
      · exact .take rfl
      · split
        · exact .skip
        · dsimp only
          split
          · exact .complete _
          · exact .complete _
          · exact .complete _
          · exact .take rfl

/-! ### Pending keys in a session -/

theorem NormalReader.pending_eq_nil_iff {r : NormalReader} : r.pending = [] ↔ r = .initial := by
  rcases r with ds | ⟨ds, op, es⟩ | ⟨ds, op, _ | ⟨es, m⟩⟩ <;> simp [pending, initial]

theorem VisualReader.pending_eq_nil_iff {r : VisualReader} : r.pending = [] ↔ r = .initial := by
  rcases r with ds | ⟨ds, op⟩ <;> simp [pending, initial]

namespace Cells

/-- The keys of a command that is not complete, in the current mode. -/
def pending (c : Cells) : List Char :=
  match c.mode with
  | .normal => c.normal.pending
  | .visual => c.visual.pending
  | .insert => []

theorem pending_cells (p : Phase) : p.cells.pending = p.pending := by
  cases p <;> rfl

/-- Where keys are commands, the keys pending in the current mode tell of both modes. -/
theorem Consistent.pending_eq_nil_iff {c : Cells} (h : c.Consistent) (hm : c.mode ≠ .insert) :
    c.pending = [] ↔ c.normal = .initial ∧ c.visual = .initial := by
  rw [pending]
  cases hmode : c.mode with
  | insert => exact absurd hmode hm
  | normal =>
    have hvisual : c.visual = .initial := h.visual (by rw [hmode]; decide)
    rw [NormalReader.pending_eq_nil_iff]
    exact ⟨fun hnormal => ⟨hnormal, hvisual⟩, And.left⟩
  | visual =>
    have hnormal : c.normal = .initial := h.normal (by rw [hmode]; decide)
    rw [VisualReader.pending_eq_nil_iff]
    exact ⟨fun hvisual => ⟨hnormal, hvisual⟩, And.right⟩

end Cells

namespace CellSession

end CellSession

end ModalEditor
