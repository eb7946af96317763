import ModalEditor.Proofs.FileContents
import ModalEditor.Proofs.Reachable

/-!
# Loading what was saved

Saving joins the lines with line feeds, and loading takes a carriage return before a line feed for a
part of the line break.  What was saved is therefore loaded again, line by line, but for one
carriage return at the end of each line that another line follows (`Session.load_saved`).
-/

namespace ModalEditor

namespace Lines

variable {ls : Lines} {l : List Char} {n : Nat}

theorem dropReturn_eq_self_iff : dropReturn l = l ↔ l.getLast? ≠ some '\r' := by
  rw [dropReturn]
  split
  · next h =>
    refine iff_of_false (fun hsame => ?_) (not_not_intro h)
    have hne : l ≠ [] := by
      rintro rfl
      cases h
    have hlength := congrArg List.length hsame
    have hpos := List.length_pos_iff.2 hne
    rw [List.length_dropLast] at hlength
    omega
  · next h => exact iff_of_true rfl h

/-- What becomes of lines that are joined to a text and split again as a text from outside. -/
theorem ofForeignText_text (h : ls.WellFormed) :
    ofForeignText ls.text = ls.dropLast.map dropReturn ++ ls.getLast?.toList := by
  rw [ofForeignText, ofText_text h]

theorem length_ofForeignText_text (h : ls.WellFormed) :
    (ofForeignText ls.text).length = ls.length := by
  have hpos := List.length_pos_iff.2 h.1
  rw [ofForeignText_text h, List.getLast?_eq_some_getLast h.1]
  simp only [List.length_append, List.length_map, List.length_dropLast, Option.toList_some,
    List.length_singleton]
  omega

theorem line_ofForeignText_text (h : ls.WellFormed) (n : Nat) :
    (ofForeignText ls.text).line n =
      if n < ls.lastLine then dropReturn (ls.line n) else ls.line n := by
  obtain ⟨front, last, rfl⟩ : ∃ front last, ls = front ++ [last] :=
    ⟨_, _, (List.dropLast_concat_getLast h.1).symm⟩
  have hlast : lastLine (front ++ [last]) = front.length := by simp [lastLine]
  rw [ofForeignText_text h, List.dropLast_concat, List.getLast?_concat, hlast, line, line]
  simp only [List.getD_eq_getElem?_getD, Option.toList_some, List.getElem?_append, List.length_map,
    List.getElem?_map]
  split
  · next hn => rw [List.getElem?_eq_getElem hn]; rfl
  · rfl

/-- Lines come back as they were if none but the last ends in a carriage return. -/
theorem ofForeignText_text_eq_iff (h : ls.WellFormed) :
    ofForeignText ls.text = ls ↔ ∀ n < ls.lastLine, (ls.line n).getLast? ≠ some '\r' := by
  constructor
  · intro hsame n hn
    have hline := line_ofForeignText_text h n
    rw [hsame, if_pos hn] at hline
    exact dropReturn_eq_self_iff.1 hline.symm
  · intro hlines
    refine List.ext_getElem (length_ofForeignText_text h) fun n hn hn' => ?_
    rw [← line_eq_getElem hn, ← line_eq_getElem hn', line_ofForeignText_text h]
    split
    · next hlast => exact dropReturn_eq_self_iff.2 (hlines n hlast)
    · rfl

end Lines

namespace FileTree

variable {t t' : FileTree} {p : Path} {ls : Lines}

/-- A file that was saved holds the text of the lines. -/
theorem readText_save (h : t.save p ls = (t', none)) :
    t'.readText p = .ok (String.ofList ls.text) := by
  unfold save at h
  split at h
  · cases h
  · next temporary htemporary =>
    split at h
    · cases h
    · next written hwrite =>
      split at h
      · cases h
      · next renamed hrename =>
        obtain ⟨rfl, -⟩ := Prod.mk.inj h
        exact readText_of_read (read_rename (read_write hwrite) hrename)

theorem load_save (h : t.save p ls = (t', none)) : t'.load p = .ok (.ofForeignText ls.text) := by
  rw [load, readText_save h]
  dsimp only
  rw [String.toList_ofList]

end FileTree

namespace Session

variable {s : Session} {p : Path} {w : Workspace}

/-- **What was saved is loaded again.**  After a successful save of a reachable buffer, loading its
file gives the same number of lines.  Each of them is the line that was saved, without one carriage
return at its end if another line follows; so the lines are the same if and only if no line but the
last ends in a carriage return. -/
theorem load_saved (h : s.Reachable) (hp : s.buffer.path = some p)
    (hsave : s.toWorkspace.save = (w, none)) :
    ∃ loaded, Workspace.load w.files p = .ok loaded ∧ loaded.buffer.path = some p ∧
      loaded.buffer.lines.length = s.buffer.lines.length ∧
      (∀ n, loaded.buffer.lines.line n =
        if n < s.buffer.lines.lastLine then Lines.dropReturn (s.buffer.lines.line n)
        else s.buffer.lines.line n) ∧
      (loaded.buffer.lines = s.buffer.lines ↔
        ∀ n < s.buffer.lines.lastLine, (s.buffer.lines.line n).getLast? ≠ some '\r') := by
  have hw : s.buffer.lines.WellFormed := h.buffer_wellFormed.document.1
  have hfiles : s.files.save p s.buffer.lines = (w.files, none) := by
    unfold Workspace.save at hsave
    rw [hp] at hsave
    dsimp only at hsave
    split at hsave
    · next files heq =>
      obtain ⟨rfl, -⟩ := Prod.mk.inj hsave
      exact heq
    · cases hsave
  let document : Document := { lines := .ofForeignText s.buffer.lines.text }
  have hload : Workspace.load w.files p =
      .ok { files := w.files, buffer := { document, path := some p } } := by
    rw [Workspace.load, FileTree.load_save hfiles]
    rfl
  exact ⟨_, hload, rfl, Lines.length_ofForeignText_text hw, Lines.line_ofForeignText_text hw,
    Lines.ofForeignText_text_eq_iff hw⟩

/-- A text with an empty last line, changed and saved. -/
theorem load_saved_changed :
    let s := (start ['a', '\r', '\n', 'b', '\n'] 5 {} {} (.memory none) (some ⟨"f"⟩)).operate
      (.typeKeys ['x'])
    s.buffer.lines = [[], ['b'], []] ∧ s.toWorkspace.save.2 = none ∧
      ∃ loaded, Workspace.load s.toWorkspace.save.1.files ⟨"f"⟩ = .ok loaded ∧
        loaded.buffer.lines = [[], ['b'], []] := by
  intro s
  have h : s.Reachable := .operate (.start ..) _
  have hlines : s.buffer.lines = [[], ['b'], []] := by decide +kernel
  have hsave : s.toWorkspace.save.2 = none := by decide +kernel
  obtain ⟨loaded, hload, -, -, -, hsame⟩ := load_saved h rfl (Prod.ext rfl hsave)
  refine ⟨hlines, hsave, loaded, hload, ?_⟩
  rw [← hlines, hsame, hlines]
  decide

/-- The line made of `a` and a carriage return comes back without the carriage return if another
line follows. -/
theorem not_load_saved_return :
    let s := start ['a', '\r', '\r', '\n', 'b'] 5 {} {} (.memory none) (some ⟨"f"⟩)
    let loaded := Workspace.load s.toWorkspace.save.1.files ⟨"f"⟩
    s.Reachable ∧ s.buffer.lines = [['a', '\r'], ['b']] ∧ s.toWorkspace.save.2 = none ∧
      loaded.toOption.map (fun w => w.buffer.lines) = some [['a'], ['b']] ∧
      loaded.toOption.map (fun w => w.buffer.lines) ≠ some s.buffer.lines :=
  ⟨.start .., by decide +kernel, by decide +kernel, by decide +kernel, by decide +kernel⟩

end Session

end ModalEditor
