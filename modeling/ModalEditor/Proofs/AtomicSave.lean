import ModalEditor.Proofs.PathNames
import ModalEditor.Workspace

/-!
# Saving all or nothing

A save writes a temporary file and moves it over the target.  The two are never at one place, so a
save that succeeds leaves the new text at the target and nothing at the place of the temporary file,
and a save that fails leaves the target as it was (`Workspace.save_all_or_nothing`).
-/

namespace ModalEditor

namespace FileTree

variable {t t' : FileTree} {p q : Path} {l : Location} {ls : Lines}

/-- Putting a file somewhere makes no directory. -/
theorem keepsDirectories_of_put_file (content : ByteArray) :
    KeepsDirectories (t.put l (.file content)) t := by
  refine ⟨rfl, fun l' h => ?_⟩
  by_cases hsame : l' = l
  · subst hsame
    by_cases hroot : l' = []
    · rw [hroot, get?, if_pos rfl]
    · rw [get?_put hroot] at h
      cases h
  · rwa [get?_put_of_ne hsame] at h

/-- A file that is written stands where its path leads. -/
theorem writeText_eq_ok {text : String} (h : t.writeText p text = .ok t') :
    ∃ l, t.place? p = some l ∧ t.put l (.file text.toUTF8) = t' := by
  rw [writeText, write, bind_eq_ok] at h
  obtain ⟨l, hwritable, ht'⟩ := h
  obtain ⟨parent, name, hlocate, -, rfl, -⟩ := writable_eq_ok_iff.1 hwritable
  exact ⟨_, place?_eq_some_iff.2 ⟨_, hlocate, rfl⟩, pure_eq_ok.1 ht'⟩

/-- A file that is moved stands where the other path leads. -/
theorem rename_eq_ok (h : t.rename p q = .ok t') :
    ∃ l l' content, t.place? p = some l ∧ t.place? q = some l' ∧ l ≠ [] ∧ l' ≠ [] ∧
      t.get? l = some (.file content) ∧ (t.remove l).put l' (.file content) = t' := by
  obtain ⟨_, _, _, content, _, _, hp, hq, -, hcontent, -, ht'⟩ := rename_eq_ok_iff.1 h
  exact ⟨_, _, content, place?_eq_some_iff.2 ⟨_, hp, rfl⟩, place?_eq_some_iff.2 ⟨_, hq, rfl⟩,
    List.concat_ne_nil _ _, List.concat_ne_nil _ _, hcontent, ht'⟩

theorem KeepsDirectories.place? (h : KeepsDirectories t t') (hp : t.place? p = some l) :
    t'.place? p = some l := by
  obtain ⟨place, hlocate, hplace⟩ := place?_eq_some_iff.1 hp
  exact place?_eq_some_iff.2 ⟨place, h.locate hlocate, hplace⟩

/-- What stands where after a save. -/
theorem get?_of_save (h : t.save p ls = (t', none)) :
    ∃ q target temporary, p.temporary? = some q ∧ t.place? p = some target ∧
      t.place? q = some temporary ∧ t'.here = t.here ∧
      ∀ l, t'.get? l = if l = target then some (.file (String.ofList ls.text).toUTF8)
        else if l = temporary then none else t.get? l := by
  unfold save at h
  split at h
  · cases h
  next q hq =>
  split at h
  · cases h
  next written hwrite =>
  split at h
  · cases h
  next renamed hrename =>
  obtain ⟨rfl, -⟩ := Prod.mk.inj h
  obtain ⟨temporary, htemporary, rfl⟩ := writeText_eq_ok hwrite
  obtain ⟨source, target, content, hsource, htarget, hne, hne', hcontent, rfl⟩ :=
    rename_eq_ok hrename
  -- Both paths lead where they led before there was a temporary file.
  have hback := keepsDirectories_of_put_file (t := t) (l := temporary)
    (String.ofList ls.text).toUTF8
  replace hsource := hback.place? hsource
  replace htarget := hback.place? htarget
  obtain rfl := Option.some.inj (hsource.symm.trans htemporary)
  rw [get?_put hne] at hcontent
  obtain rfl := Entry.file.inj (Option.some.inj hcontent)
  refine ⟨q, target, source, hq, htarget, htemporary, rfl, fun l => ?_⟩
  by_cases hl : l = target
  · rw [if_pos hl, hl, get?_put hne']
  rw [if_neg hl, get?_put_of_ne hl]
  by_cases hl' : l = source
  · rw [if_pos hl', hl', get?_remove hne]
  · rw [if_neg hl', get?_remove_of_ne hl', get?_put_of_ne hl']

/-- A save fails before it has written anything, or else when it moves the temporary file. -/
theorem eq_or_of_save {cause : StoreError} (h : t.save p ls = (t', some cause)) : t' = t ∨
    ∃ q temporary content e, p.temporary? = some q ∧ t.place? q = some temporary ∧
      cause = .renameTemporary p e ∧ t' = t.put temporary (.file content) := by
  unfold save at h
  split at h
  · exact .inl (Prod.mk.inj h).1.symm
  next q hq =>
  split at h
  · exact .inl (Prod.mk.inj h).1.symm
  next written hwrite =>
  split at h
  · next e _ =>
    obtain ⟨rfl, hcause⟩ := Prod.mk.inj h
    obtain ⟨temporary, htemporary, hput⟩ := writeText_eq_ok hwrite
    exact .inr ⟨q, temporary, _, e, hq, htemporary, (Option.some.inj hcause).symm, hput.symm⟩
  · cases h

end FileTree

namespace Workspace

variable (w : Workspace) {p q : Path}

/-- The place the buffer is saved to. -/
def target? : Option Location := w.buffer.path.bind w.files.place?

/-- The place of the temporary file of a save. -/
def temporary? : Option Location := (w.buffer.path.bind Path.temporary?).bind w.files.place?

theorem target?_of_path (h : w.buffer.path = some p) : w.target? = w.files.place? p := by
  rw [target?, h, Option.bind_some]

theorem temporary?_of_path (h : w.buffer.path = some p) (hq : p.temporary? = some q) :
    w.temporary? = w.files.place? q := by
  rw [temporary?, h, Option.bind_some, hq, Option.bind_some]

theorem save_eq_none (h : w.save.2 = none) : ∃ p files, w.buffer.path = some p ∧
    w.files.save p w.buffer.lines = (files, none) ∧
    w.save.1 = { files, buffer := { w.buffer with dirty := false } } := by
  unfold save at h ⊢
  split at h
  · cases h
  next p hpath =>
  split at h
  · next files hsave => exact ⟨p, files, hpath, hsave, rfl⟩
  · cases h

theorem save_eq_some {cause : StoreError} (h : w.save.2 = some cause) : w.save.1 = w ∨
    ∃ p files, w.buffer.path = some p ∧ w.files.save p w.buffer.lines = (files, some cause) ∧
      w.save.1 = { w with files } := by
  unfold save at h ⊢
  split at h
  · exact .inl rfl
  next p hpath =>
  split at h
  · cases h
  · next files e hsave =>
    obtain rfl := Option.some.inj h
    exact .inr ⟨p, files, hpath, hsave, rfl⟩

/-- **A save is all or nothing.**  If it succeeds, the target holds the text, nothing is left of the
temporary file beside it, every other place is as it was, and the buffer is clean and otherwise
unchanged.  If it fails, the buffer is as it was, and so is every place but that of the temporary
file, the target among them; unless what failed is the moving of the temporary file, all files are
as they were. -/
theorem save_all_or_nothing :
    (w.save.2 = none → ∃ parent name, w.target? = some (parent ++ [name]) ∧
      w.temporary? = some (parent ++ [name ++ ".tmp"]) ∧
      w.save.1.buffer = { w.buffer with dirty := false } ∧
      w.save.1.files.here = w.files.here ∧
      ∀ l, w.save.1.files.get? l =
        if l = parent ++ [name] then some (.file (String.ofList w.buffer.text).toUTF8)
        else if l = parent ++ [name ++ ".tmp"] then none
        else w.files.get? l) ∧
    ∀ cause, w.save.2 = some cause →
      w.save.1.buffer = w.buffer ∧
      w.save.1.files.here = w.files.here ∧
      (∀ l, w.temporary? ≠ some l → w.save.1.files.get? l = w.files.get? l) ∧
      (∀ l, w.target? = some l → w.save.1.files.get? l = w.files.get? l) ∧
      ((∀ p e, cause ≠ .renameTemporary p e) → w.save.1.files = w.files) := by
  constructor
  · intro h
    obtain ⟨p, files, hpath, hsave, hw⟩ := w.save_eq_none h
    obtain ⟨q, l, l', hq, hp, hplace, hhere, hget⟩ := FileTree.get?_of_save hsave
    obtain ⟨parent, name, hbeside, hbeside'⟩ := FileTree.beside_temporary (t := w.files) hq
    obtain rfl := hbeside l hp
    obtain rfl := hbeside' l' hplace
    rw [hw, w.target?_of_path hpath, w.temporary?_of_path hpath hq]
    exact ⟨parent, name, hp, hplace, rfl, hhere, hget⟩
  · intro cause h
    obtain hw | ⟨p, files, hpath, hsave, hw⟩ := w.save_eq_some h
    · rw [hw]
      exact ⟨rfl, rfl, fun _ _ => rfl, fun _ _ => rfl, fun _ => rfl⟩
    rw [hw]
    obtain rfl | ⟨q, l', content, e, hq, hplace, hcause, rfl⟩ := FileTree.eq_or_of_save hsave
    · exact ⟨rfl, rfl, fun _ _ => rfl, fun _ _ => rfl, fun _ => rfl⟩
    obtain ⟨parent, name, hbeside, hbeside'⟩ := FileTree.beside_temporary (t := w.files) hq
    obtain rfl := hbeside' l' hplace
    rw [w.target?_of_path hpath, w.temporary?_of_path hpath hq]
    refine ⟨rfl, rfl, fun l hl => ?_, fun l hl => ?_, fun h => absurd hcause (h p e)⟩
    · have hne : l ≠ parent ++ [name ++ ".tmp"] := by
        rintro rfl
        exact hl hplace
      exact FileTree.get?_put_of_ne hne _
    · have hne : l ≠ parent ++ [name ++ ".tmp"] := by
        rw [hbeside l hl]
        exact FileTree.ne_append_tmp parent name
      exact FileTree.get?_put_of_ne hne _

/-- A file replaced while another temporary file lies about, and a file that cannot be written. -/
theorem save_all_or_nothing_replaced :
    let files : FileTree :=
      { entries := [(["d"], .directory), (["d", "f"], .file "old".toUTF8),
          (["d", "f.tmp"], .file "stale".toUTF8), (["g"], .file "other".toUTF8)] }
    let document : Document := { lines := [['a'], []] }
    let w : Workspace := { buffer := { document, path := some ⟨"d/f"⟩, dirty := true }, files }
    let v : Workspace := { buffer := { document, path := some ⟨"d/f/x"⟩, dirty := true }, files }
    (w.save.2 = none ∧ w.save.1.files.get? ["d", "f"] = some (.file "a\n".toUTF8) ∧
      w.save.1.files.get? ["d", "f.tmp"] = none ∧
      w.save.1.files.get? ["g"] = some (.file "other".toUTF8) ∧ w.save.1.buffer.dirty = false) ∧
    v.save.2 = some (.writeTemporary ⟨"d/f/x.tmp"⟩ .notDirectory) ∧ v.save.1.files = files ∧
      v.save.1.buffer.dirty = true := by
  intro files document w v
  have hw : w.save.2 = none := by decide +kernel
  have hv : v.save.2 = some (.writeTemporary ⟨"d/f/x.tmp"⟩ .notDirectory) := by decide +kernel
  obtain ⟨parent, name, htarget, -, hbuffer, -, hget⟩ := w.save_all_or_nothing.1 hw
  obtain ⟨hbuffer', -, -, -, hfiles⟩ := v.save_all_or_nothing.2 _ hv
  have hplace : w.target? = some (["d"] ++ ["f"]) := by decide +kernel
  obtain ⟨rfl, hname⟩ := List.append_inj' (Option.some.inj (htarget.symm.trans hplace)) rfl
  obtain ⟨rfl, -⟩ := List.cons.inj hname
  refine ⟨⟨hw, ?_, ?_, ?_, by rw [hbuffer]⟩, hv, hfiles (by rintro _ _ ⟨⟩), by rw [hbuffer']⟩
  · rw [hget]
    decide +kernel
  · rw [hget]
    decide +kernel
  · rw [hget]
    decide +kernel

/-- A file of the temporary name is lost in a save that succeeds, and left behind by a save that
fails because its target is a directory. -/
theorem save_takes_temporary :
    let files : FileTree := { entries := [(["f.tmp"], .file "mine".toUTF8), (["d"], .directory)] }
    let w : Workspace := { buffer := { path := some ⟨"f"⟩ }, files }
    let v : Workspace := { buffer := { path := some ⟨"d"⟩ }, files }
    (w.save.2 = none ∧ w.target? = some ["f"] ∧
      w.files.get? ["f.tmp"] = some (.file "mine".toUTF8) ∧
      w.save.1.files.get? ["f.tmp"] = none) ∧
    v.save.2 = some (.renameTemporary ⟨"d"⟩ .isDirectory) ∧
      v.files.get? ["d.tmp"] = none ∧ v.save.1.files.get? ["d.tmp"] = some (.file .empty) := by
  decide +kernel

end Workspace

end ModalEditor
