import ModalEditor.Proofs.WholeLines

/-!
# Edits of single lines

An edit may change one line by a function and leave the others alone (`Edit.Changes`).  A batch of
such edits, one for each of some lines, can be planned before the first of them is carried out: each
finds its line as it was (`Document.lines_applyAll_map`).

Where the lines to change are those of a block that the function does change, the batch maps the
function over the block, and makes a step in the undo history if and only if the text changes
(`Editor.edit_block`).
-/

namespace ModalEditor

namespace Lines

variable {ls : Lines} {f g : List Char → List Char} {first last n : Nat}

/-- The lines, with `f` applied to lines `first` to `last`. -/
def mapBlock (f : List Char → List Char) (first last : Nat) (ls : Lines) : Lines :=
  ls.mapIdx fun n l => if first ≤ n ∧ n ≤ last then f l else l

theorem mapBlock_eq_self_iff :
    ls.mapBlock f first last = ls ↔
      ∀ n < ls.length, first ≤ n ∧ n ≤ last → f (ls.line n) = ls.line n := by
  rw [mapBlock, List.mapIdx_eq_iff]
  constructor
  · intro h n hn hblock
    have hline := h n
    rw [List.getElem?_eq_getElem hn, Option.map_some, if_pos hblock, Option.some.injEq] at hline
    rw [line_eq_getElem hn, ← hline]
  · intro h n
    by_cases hn : n < ls.length
    · rw [List.getElem?_eq_getElem hn, Option.map_some, Option.some.injEq]
      split
      · next hblock => rw [← line_eq_getElem hn, h n hn hblock]
      · rfl
    · rw [List.getElem?_eq_none (Nat.le_of_not_lt hn)]
      rfl

theorem mapBlock_mapBlock (ls : Lines) (f g : List Char → List Char) (first last : Nat) :
    (ls.mapBlock f first last).mapBlock g first last =
      ls.mapBlock (fun l => g (f l)) first last := by
  rw [mapBlock, mapBlock, mapBlock, List.mapIdx_mapIdx]
  congr 1
  funext n l
  by_cases h : first ≤ n ∧ n ≤ last
  · simp only [Function.comp_apply, if_pos h]
  · simp only [Function.comp_apply, if_neg h]

end Lines

/-- The edit changes line `n` by `f` and leaves the other lines alone. -/
def Edit.Changes (ed : Edit) (n : Nat) (f : List Char → List Char) : Prop :=
  ∀ d : Document, d.WellFormed → n < d.lines.length → (d.apply ed).lines = d.lines.modify n f

namespace Edit

/-- Text without line breaks is put in front of a line. -/
theorem changes_insert {t : List Char} (ht : '\n' ∉ t) (n : Nat) :
    (insert ⟨n, 0⟩ t).Changes n (t ++ ·) := by
  intro d hw hn
  have hplace : d.lines.clamp ⟨n, 0⟩ = ⟨n, 0⟩ := Lines.clamp_of_inRange ⟨hn, Nat.zero_le _⟩
  have hline : Lines.ofText (t ++ d.lines.line n) = [t ++ d.lines.line n] := by
    refine List.splitOn_eq_singleton ?_
    rw [List.mem_append, not_or]
    exact ⟨ht, Lines.notMem_line hw.1 n⟩
  show d.lines.insertAt (d.lines.clamp ⟨n, 0⟩) t = _
  rw [hplace, Lines.insertAt]
  dsimp only
  rw [List.take_zero, List.drop_zero, List.nil_append, hline, List.modify_eq_take_cons_drop hn,
    Lines.line_eq_getElem hn, List.append_assoc, List.singleton_append]

/-- Characters are taken off the front of a line. -/
theorem changes_erase (n k : Nat) : (erase (.between ⟨n, 0⟩ ⟨n, k⟩)).Changes n (·.drop k) := by
  intro d _ hn
  have hle : (⟨n, 0⟩ : Position) ≤ ⟨n, k⟩ := .inr ⟨rfl, Nat.zero_le k⟩
  let stop : Position := ⟨n, min k (d.lines.lineLength n)⟩
  have hstart : d.lines.InRange ⟨n, 0⟩ := ⟨hn, Nat.zero_le _⟩
  have hstop : d.lines.InRange stop := ⟨hn, Nat.min_le_right ..⟩
  have hle' : (⟨n, 0⟩ : Position) ≤ stop := .inr ⟨rfl, Nat.zero_le _⟩
  -- The end of the span is moved into the line.
  have hclamp : d.lines.clamp ⟨n, k⟩ = d.lines.clamp stop := by
    simp only [Lines.clamp, stop, Lines.lastLine, Nat.min_eq_left (Nat.le_sub_one_of_lt hn),
      Nat.min_assoc, Nat.min_self]
  have herase : d.apply (erase (.between ⟨n, 0⟩ ⟨n, k⟩)) =
      d.erase (.between ⟨n, 0⟩ stop) := by
    simp only [Document.apply, Document.erase, Span.between_of_le hle, Span.between_of_le hle',
      hclamp]
  have hline : (d.lines.line n).drop (min k (d.lines.lineLength n)) = (d.lines.line n).drop k := by
    rw [Lines.lineLength, List.drop_eq_drop_iff]
    omega
  rw [herase, Document.lines_erase_between hstart hstop hle', Lines.eraseBetween, hline,
    List.take_zero, List.nil_append, List.modify_eq_take_cons_drop hn, Lines.line_eq_getElem hn,
    List.append_assoc, List.singleton_append]

end Edit

theorem Target.mem_lineNumbers {t : Target} {n : Nat} :
    n ∈ t.lineNumbers ↔ t.first ≤ n ∧ n ≤ t.last := by
  rw [lineNumbers, List.mem_range'_1]
  omega

theorem Target.nodup_lineNumbers (t : Target) : t.lineNumbers.Nodup := List.nodup_range' 1

namespace Document

variable {d : Document} {ed : Nat → Edit} {f : Nat → List Char → List Char} {ns : List Nat}

/-- **A batch of edits of single lines.**  None of them sees what the others do. -/
theorem lines_applyAll_map (hw : d.WellFormed) (hed : ∀ n, (ed n).Changes n (f n))
    (hin : ∀ n ∈ ns, n < d.lines.length) (hdistinct : ns.Nodup) :
    (d.applyAll (ns.map ed)).lines = d.lines.mapIdx fun n l => if n ∈ ns then f n l else l := by
  induction ns generalizing d with
  | nil => exact (List.mapIdx_eq_iff.2 fun n => by simp [applyAll]).symm
  | cons m ns ih =>
    obtain ⟨hm, hdistinct⟩ := List.nodup_cons.1 hdistinct
    have hchange : (d.apply (ed m)).lines = d.lines.modify m (f m) :=
      hed m d hw (hin m List.mem_cons_self)
    have hlength : (d.apply (ed m)).lines.length = d.lines.length := by
      rw [hchange, List.length_modify]
    have hrest := ih (wellFormed_apply hw (ed m))
      (fun n hn => by rw [hlength]; exact hin n (List.mem_cons_of_mem _ hn)) hdistinct
    refine Eq.trans hrest ?_
    rw [hchange]
    apply List.ext_getElem?
    intro n
    rw [List.getElem?_mapIdx, List.getElem?_mapIdx, List.getElem?_modify]
    cases d.lines[n]? with
    | none => rfl
    | some l =>
      by_cases hn : m = n
      · subst hn
        simp [hm]
      · simp [hn, Ne.symm hn]

/-- One edit for each line of a block that `f` changes applies `f` to the block. -/
theorem lines_applyAll_block {f : List Char → List Char} {h : Nat → List Char → List Char}
    {keep : Nat → Bool} (hw : d.WellFormed) (hed : ∀ n, (ed n).Changes n (h n))
    (hkeep : ∀ n, keep n = true → h n (d.lines.line n) = f (d.lines.line n))
    (hiff : ∀ n, keep n = true ↔ f (d.lines.line n) ≠ d.lines.line n)
    (hin : ∀ n, keep n = true → n < d.lines.length) (t : Target) :
    (d.applyAll ((t.lineNumbers.filter keep).map ed)).lines =
      d.lines.mapBlock f t.first t.last := by
  refine (lines_applyAll_map hw hed (fun n hn => hin n (List.mem_filter.1 hn).2)
    (t.nodup_lineNumbers.filter _)).trans (List.mapIdx_eq_mapIdx_iff.2 fun n hn => ?_)
  rw [← Lines.line_eq_getElem hn]
  by_cases hblock : t.first ≤ n ∧ n ≤ t.last
  · rw [if_pos hblock]
    by_cases hk : keep n = true
    · rw [if_pos (List.mem_filter.2 ⟨Target.mem_lineNumbers.2 hblock, hk⟩)]
      exact hkeep n hk
    · rw [if_neg fun hn => hk (List.mem_filter.1 hn).2]
      exact (not_not.1 (mt (hiff n).2 hk)).symm
  · rw [if_neg hblock, if_neg fun hn => hblock (Target.mem_lineNumbers.1 (List.mem_filter.1 hn).1)]

end Document

namespace Editor

variable {e : Editor} {f : List Char → List Char} {keep : Nat → Bool} {ed : Nat → Edit}
variable {h : Nat → List Char → List Char}

/-- **Changing the lines of a block.**  A batch with one edit for each line of the block that `f`
changes puts `f` of the line in its place.  It is a step in the undo history unless the text stays
as it is. -/
theorem edit_block (hw : e.buffer.document.WellFormed) (hnil : f [] = [])
    (hed : ∀ n, (ed n).Changes n (h n)) (hkeep : ∀ n, keep n = true → h n (e.lines.line n) =
      f (e.lines.line n)) (hiff : ∀ n, keep n = true ↔ f (e.lines.line n) ≠ e.lines.line n)
    (t : Target) :
    let x := e.edit ((t.lineNumbers.filter keep).map ed)
    x.lines = e.lines.mapBlock f t.first t.last ∧
      x.buffer.history = if x.lines = e.lines then e.buffer.history
        else e.buffer.history.checkpoint e.buffer.document := by
  intro x
  -- There is nothing to change beyond the last line.
  have hin (n : Nat) (hn : keep n = true) : n < e.lines.length := by
    by_contra hlt
    have hline : e.lines.line n = [] := by simp [Lines.line, Nat.le_of_not_lt hlt]
    have hchanges := (hiff n).1 hn
    rw [hline] at hchanges
    exact hchanges hnil
  have hlines : x.lines = e.lines.mapBlock f t.first t.last := by
    have hdocument : x.buffer.document =
        e.buffer.document.applyAll ((t.lineNumbers.filter keep).map ed) :=
      congrArg View.document (e.view_edit _)
    exact (congrArg Document.lines hdocument).trans
      (Document.lines_applyAll_block hw hed hkeep hiff hin t)
  refine ⟨hlines, ?_⟩
  by_cases hnone : t.lineNumbers.filter keep = []
  · have hx : x = e := by
      simp only [x, hnone]
      rfl
    rw [hx, if_pos rfl]
  · obtain ⟨n, hn⟩ := List.exists_mem_of_ne_nil _ hnone
    obtain ⟨hblock, hk⟩ := List.mem_filter.1 hn
    have hchanged : x.lines ≠ e.lines := by
      rw [hlines, Ne, Lines.mapBlock_eq_self_iff]
      exact fun hsame => (hiff n).1 hk (hsame n (hin n hk) (Target.mem_lineNumbers.1 hblock))
    have hedit : ((t.lineNumbers.filter keep).map ed).isEmpty = false := by
      simp [hnone]
    rw [if_neg hchanged]
    simp only [x, edit, mapBuffer, Buffer.edit, hedit, Bool.false_eq_true, if_false]

end Editor

end ModalEditor
