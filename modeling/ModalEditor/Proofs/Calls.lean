import ModalEditor.Proofs.Flat

/-!
# Calls on a buffer

Everything that happens to a buffer is a list of calls (`Buffer.calls`).  A buffer is well formed
when its document and every document in its history are, and each call keeps it so
(`Buffer.wellFormed_calls`).

What a call does depends neither on nor through the mark of unsaved changes
(`Buffer.calls_setDirty`); among the plain calls, those that commands make, exactly the edits set
the mark (`Buffer.dirty_calls`).
-/

namespace ModalEditor

namespace Buffer

/-- A call on a buffer. -/
inductive Call where
  | edit (es : List Edit)
  | select (s : Selection)
  | reveal (line : Nat)
  | scroll (line : Nat) (place : ViewPlace)
  | style (s : CursorStyle)
  | copy (text : List Char)
  | undo
  | redo
  | beginUndoGroup
  | endUndoGroup
  | resize (height : Nat)
  | markSaved
deriving DecidableEq, Repr

namespace Call

/-- The calls that need no access to the history. -/
def isPlain : Call → Bool
  | edit _ | select _ | reveal _ | scroll .. | style _ | copy _ => true
  | _ => false

/-- The call changes the text. -/
def isEdit : Call → Bool
  | edit es => !es.isEmpty
  | _ => false

end Call

variable (b : Buffer)

/-- Carry out a call. -/
def call : Call → Buffer
  | .edit es => b.edit es
  | .select s => b.select s
  | .reveal n => b.revealLine n
  | .scroll n place => b.scrollLineTo n place
  | .style s => { b with cursorStyle := s }
  | .copy text => { b with clipboard := b.clipboard.write text }
  | .undo => b.undo.2
  | .redo => b.redo.2
  | .beginUndoGroup => b.beginUndoGroup
  | .endUndoGroup => b.endUndoGroup
  | .resize height => b.setViewportHeight height
  | .markSaved => { b with dirty := false }

/-- Carry out calls in order. -/
def calls (cs : List Call) : Buffer := cs.foldl call b

variable {b}

@[simp] theorem calls_nil : b.calls [] = b := rfl

@[simp] theorem calls_cons (c : Call) (cs : List Call) :
    b.calls (c :: cs) = (b.call c).calls cs := rfl

theorem calls_append (cs ds : List Call) : b.calls (cs ++ ds) = (b.calls cs).calls ds :=
  List.foldl_append ..

/-! ### Well-formed buffers -/

theorem document_revealLine (b : Buffer) (n : Nat) : (b.revealLine n).document = b.document :=
  rfl

theorem history_revealLine (b : Buffer) (n : Nat) : (b.revealLine n).history = b.history :=
  rfl

/-- The document and all documents of the history are well formed. -/
structure WellFormed (b : Buffer) : Prop where
  document : b.document.WellFormed
  past : ∀ d ∈ b.history.past, d.WellFormed
  future : ∀ d ∈ b.history.future, d.WellFormed

theorem wellFormed_ofText (t : List Char) : (ofText t).WellFormed :=
  ⟨Document.wellFormed_ofText t, by simp [ofText], by simp [ofText]⟩

theorem wellFormed_edit (h : b.WellFormed) (es : List Edit) : (b.edit es).WellFormed := by
  obtain ⟨hd, hp, hf⟩ := h
  rw [edit]
  split
  · exact ⟨hd, hp, hf⟩
  have hd' := Document.wellFormed_applyAll hd es
  -- Whatever is recorded was there before, or is the document the edits replace.
  have hpast : ∀ d ∈ (b.document :: b.history.past).take b.history.limit, d.WellFormed := by
    intro d hmem
    rcases List.mem_cons.1 (List.mem_of_mem_take hmem) with rfl | hmem
    · exact hd
    · exact hp d hmem
  by_cases hl : b.history.limit = 0
  · exact ⟨hd', by simpa [History.checkpoint, hl] using hp,
      by simpa [History.checkpoint, hl] using hf⟩
  cases hg : b.history.grouping with
  | closed => exact ⟨hd', by simpa [History.checkpoint, hl, hg] using hpast,
      by simp [History.checkpoint, hl, hg]⟩
  | begun => exact ⟨hd', by simpa [History.checkpoint, hl, hg] using hpast,
      by simp [History.checkpoint, hl, hg]⟩
  | recorded => exact ⟨hd', by simpa [History.checkpoint, hl, hg] using hp,
      by simp [History.checkpoint, hl, hg]⟩

theorem wellFormed_revealLine (h : b.WellFormed) (n : Nat) : (b.revealLine n).WellFormed := by
  obtain ⟨hd, hp, hf⟩ := h
  exact ⟨by rwa [document_revealLine], by rwa [history_revealLine], by rwa [history_revealLine]⟩

theorem wellFormed_undo (h : b.WellFormed) : b.undo.2.WellFormed := by
  obtain ⟨hd, hp, hf⟩ := h
  cases hpast : b.history.past with
  | nil => exact ⟨by simpa [undo, History.undo, hpast], by simp [undo, History.undo, hpast,
      History.endGroup], by simpa [undo, History.undo, hpast, History.endGroup] using hf⟩
  | cons d ds =>
    simp only [hpast, List.forall_mem_cons] at hp
    simp only [undo, History.undo, hpast]
    exact wellFormed_revealLine ⟨hp.1, hp.2, List.forall_mem_cons.2 ⟨hd, hf⟩⟩ _

theorem wellFormed_redo (h : b.WellFormed) : b.redo.2.WellFormed := by
  obtain ⟨hd, hp, hf⟩ := h
  cases hfuture : b.history.future with
  | nil => exact ⟨by simpa [redo, History.redo, hfuture], by simpa [redo, History.redo, hfuture,
      History.endGroup] using hp, by simp [redo, History.redo, hfuture, History.endGroup]⟩
  | cons d ds =>
    simp only [hfuture, List.forall_mem_cons] at hf
    simp only [redo, History.redo, hfuture]
    exact wellFormed_revealLine ⟨hf.1, List.forall_mem_cons.2 ⟨hd, hp⟩, hf.2⟩ _

theorem wellFormed_beginUndoGroup (h : b.WellFormed) : b.beginUndoGroup.WellFormed := by
  obtain ⟨hd, hp, hf⟩ := h
  cases hg : b.history.grouping <;>
    exact ⟨hd, by simpa [beginUndoGroup, History.beginGroup, hg] using hp,
      by simpa [beginUndoGroup, History.beginGroup, hg] using hf⟩

/-- Each call keeps a buffer well formed. -/
theorem wellFormed_call (h : b.WellFormed) (c : Call) : (b.call c).WellFormed := by
  cases c with
  | edit es => exact wellFormed_edit h es
  | select s => exact ⟨Document.wellFormed_select h.document.1 s, h.past, h.future⟩
  | reveal n => exact wellFormed_revealLine h n
  | undo => exact wellFormed_undo h
  | redo => exact wellFormed_redo h
  | beginUndoGroup => exact wellFormed_beginUndoGroup h
  | resize height =>
    have h' : { b with viewportHeight := max height 1 }.WellFormed := ⟨h.document, h.past, h.future⟩
    exact wellFormed_revealLine h' _
  | scroll | style | copy | endUndoGroup | markSaved => exact ⟨h.document, h.past, h.future⟩

theorem wellFormed_calls (h : b.WellFormed) (cs : List Call) : (b.calls cs).WellFormed := by
  induction cs generalizing b with
  | nil => exact h
  | cons c cs ih => exact ih (wellFormed_call h c)

/-! ### The mark of unsaved changes -/

/-- The buffer with the mark of unsaved changes put on or taken off. -/
def setDirty (b : Buffer) (v : Bool) : Buffer := { b with dirty := v }

@[simp] theorem setDirty_document (v : Bool) : (b.setDirty v).document = b.document := rfl

@[simp] theorem setDirty_history (v : Bool) : (b.setDirty v).history = b.history := rfl

theorem revealLine_setDirty (b : Buffer) (n : Nat) (v : Bool) :
    (b.setDirty v).revealLine n = (b.revealLine n).setDirty v := rfl

theorem dirty_revealLine (b : Buffer) (n : Nat) : (b.revealLine n).dirty = b.dirty := rfl

theorem setDirty_of_dirty {v : Bool} (h : b.dirty = v) : b.setDirty v = b := by
  subst h; rfl

theorem dirty_restore (b : Buffer) (d : Document) (history : History Document) :
    (b.restore d history).dirty = true := dirty_revealLine ..

/-- Up to the mark, a call does the same with the mark on as with it off. -/
theorem call_setDirty (b : Buffer) (c : Call) (v : Bool) :
    ∃ w, (b.setDirty v).call c = (b.call c).setDirty w := by
  cases c with
  | edit es =>
    by_cases h : es.isEmpty
    · exact ⟨v, by simp only [call, edit, if_pos h]⟩
    · exact ⟨true, by simp only [call, edit, if_neg h]; rfl⟩
  | reveal n => exact ⟨v, revealLine_setDirty b n v⟩
  | undo =>
    cases h : b.history.past with
    | nil => exact ⟨v, by simp [call, undo, History.undo, setDirty, h]⟩
    | cons d ds =>
      refine ⟨true, ?_⟩
      simp only [call, undo, History.undo, setDirty_history, setDirty_document, h]
      exact (setDirty_of_dirty (dirty_restore ..)).symm
  | redo =>
    cases h : b.history.future with
    | nil => exact ⟨v, by simp [call, redo, History.redo, setDirty, h]⟩
    | cons d ds =>
      refine ⟨true, ?_⟩
      simp only [call, redo, History.redo, setDirty_history, setDirty_document, h]
      exact (setDirty_of_dirty (dirty_restore ..)).symm
  | resize height =>
    exact ⟨v, revealLine_setDirty { b with viewportHeight := max height 1 } _ v⟩
  | markSaved => exact ⟨false, rfl⟩
  | select | scroll | style | copy | beginUndoGroup | endUndoGroup => exact ⟨v, rfl⟩

theorem calls_setDirty (b : Buffer) (cs : List Call) (v : Bool) :
    ∃ w, (b.setDirty v).calls cs = (b.calls cs).setDirty w := by
  induction cs generalizing b v with
  | nil => exact ⟨v, rfl⟩
  | cons c cs ih =>
    obtain ⟨w, hw⟩ := call_setDirty b c v
    obtain ⟨x, hx⟩ := ih (b.call c) w
    exact ⟨x, by rw [calls_cons, calls_cons, hw, hx]⟩

theorem dirty_call {c : Call} (h : c.isPlain) : (b.call c).dirty = (b.dirty || c.isEdit) := by
  cases c with
  | edit es => cases es <;> simp [call, edit, Call.isEdit]
  | reveal n => simp [call, dirty_revealLine, Call.isEdit]
  | select | scroll | style | copy => simp [call, Call.isEdit, select, scrollLineTo]
  | _ => simp [Call.isPlain] at h

/-- Of the plain calls, exactly those that change the text set the mark. -/
theorem dirty_calls {cs : List Call} (h : ∀ c ∈ cs, c.isPlain) :
    (b.calls cs).dirty = (b.dirty || cs.any Call.isEdit) := by
  induction cs generalizing b with
  | nil => simp
  | cons c cs ih =>
    obtain ⟨hc, hcs⟩ := List.forall_mem_cons.1 h
    rw [calls_cons, ih hcs, dirty_call hc, List.any_cons, Bool.or_assoc]

end Buffer

end ModalEditor
