import ModalEditor.Files.Tree

/-!
# What is written to a file

A text that has been written to a file is what is read from it (`FileTree.readText_writeText`), and
a file that has been moved holds what it held (`FileTree.read_rename`).  Both put a file where there
was none, or one; the directories on the way stay, and so the same path leads there again.

Each operation on paths has one lemma that says when it succeeds (`FileTree.locate_eq_ok_iff` and
the like); what follows does not look into the operations.
-/

namespace ModalEditor

namespace FileTree

variable {t t' : FileTree} {l l' : Location} {e : Entry} {p : Path} {content : ByteArray}

/-! ### Places -/

theorem get?_put (hl : l ≠ []) (e : Entry) : (t.put l e).get? l = some e := by
  simp [get?, put, hl]

theorem lookup_filter_ne (es : List (Location × Entry)) (h : l' ≠ l) :
    (es.filter fun e => e.1 ≠ l).lookup l' = es.lookup l' := by
  induction es with
  | nil => rfl
  | cons d es ih =>
    by_cases hd : d.1 = l
    · have hne : (l' == d.1) = false := by simpa [hd] using h
      rw [List.filter_cons_of_neg (by simpa using hd), ih]
      rw [List.lookup_cons, hne]
    · rw [List.filter_cons_of_pos (by simpa using hd), List.lookup_cons, List.lookup_cons, ih]

theorem get?_put_of_ne (h : l' ≠ l) (e : Entry) : (t.put l e).get? l' = t.get? l' := by
  have hne : (l' == l) = false := by simpa using h
  unfold get? put
  split
  · rfl
  · simp only [List.lookup_cons, hne, remove]
    exact lookup_filter_ne _ h

theorem get?_remove (hl : l ≠ []) : (t.remove l).get? l = none := by
  rw [get?, if_neg hl, remove, List.lookup_eq_none_iff]
  intro e he
  have hne : e.1 ≠ l := of_decide_eq_true (List.mem_filter.1 he).2
  exact bne_iff_ne.2 hne.symm

theorem get?_remove_of_ne (h : l' ≠ l) : (t.remove l).get? l' = t.get? l' := by
  unfold get? remove
  split
  · rfl
  · exact lookup_filter_ne _ h

/-! ### Steps that can fail -/

section

variable {ε α β : Type} {a b : α}

@[simp] theorem pure_eq_ok : (pure a : Except ε α) = .ok b ↔ a = b :=
  iff_of_eq (Except.ok.injEq a b)

@[simp] theorem bind_eq_ok {x : Except ε α} {f : α → Except ε β} {b : β} :
    x >>= f = .ok b ↔ ∃ a, x = .ok a ∧ f a = .ok b := by
  cases x <;> simp [bind, Except.bind]

@[simp] theorem guard_eq_ok {P : Prop} [Decidable P] {failure : ε} {f : PUnit → Except ε α}
    {x : Except ε α} : (if P then throw failure >>= f else x) = .ok a ↔ ¬P ∧ x = .ok a := by
  by_cases h : P
  · simp [h, throw, throwThe, MonadExceptOf.throw, bind, Except.bind]
  · simp [h]

end

/-! ### Paths -/

/-- A name leads to the place itself, to the one it lies in, or to a directory in it. -/
theorem enter_eq_ok_iff {name : String} : t.enter l name = .ok l' ↔
    if name = "." then l = l'
    else if name = ".." then l.dropLast = l'
    else nameFits name = true ∧ t.get? (l ++ [name]) = some .directory ∧ l ++ [name] = l' := by
  unfold enter
  split
  · rw [Except.ok.injEq]
  split
  · rw [Except.ok.injEq]
  split
  · next hfits => simpa using fun h => absurd h (by simpa using hfits)
  · next hfits =>
    cases t.get? (l ++ [name]) with
    | none => simp
    | some e =>
      have hname : nameFits name = true := by simpa using hfits
      cases e <;> simp [hname]

/-- A path leads through directories to its last name. -/
theorem locate_eq_ok_iff {place : Target} : t.locate p = .ok place ↔
    '\x00' ∉ p.text.toList ∧ p.text ≠ "" ∧ p.text.utf8ByteSize < 4096 ∧
      match p.names.getLast? with
      | none => .directory [] = place
      | some last =>
        ∃ l, p.names.dropLast.foldlM t.enter (if p.isAbsolute then [] else t.here) = .ok l ∧
          if last = "." ∨ last = ".." then ∃ l', t.enter l last = .ok l' ∧ .directory l' = place
          else .entry l last p.endsWithSlash = place := by
  unfold locate
  dsimp only
  rw [guard_eq_ok, guard_eq_ok, guard_eq_ok, List.contains_iff_mem, Nat.not_le]
  cases p.names.getLast? with
  | none =>
    dsimp only
    rw [pure_eq_ok]
  | some last =>
    dsimp only
    rw [bind_eq_ok]
    by_cases hdots : last = "." ∨ last = ".."
    · simp only [if_pos hdots, bind_eq_ok, pure_eq_ok]
    · simp only [if_neg hdots, pure_eq_ok]

/-- The directories of one tree are directories of the other. -/
def KeepsDirectories (t t' : FileTree) : Prop :=
  t'.here = t.here ∧ ∀ l, t.get? l = some .directory → t'.get? l = some .directory

theorem KeepsDirectories.trans {t'' : FileTree} (h : KeepsDirectories t t')
    (h' : KeepsDirectories t' t'') : KeepsDirectories t t'' :=
  ⟨h'.1.trans h.1, fun l hl => h'.2 l (h.2 l hl)⟩

theorem keepsDirectories_put (h : t.get? l ≠ some .directory) (e : Entry) :
    KeepsDirectories t (t.put l e) := by
  refine ⟨rfl, fun l' hl' => ?_⟩
  rw [get?_put_of_ne, hl']
  rintro rfl
  exact h hl'

theorem keepsDirectories_remove (h : t.get? l ≠ some .directory) :
    KeepsDirectories t (t.remove l) := by
  refine ⟨rfl, fun l' hl' => ?_⟩
  rw [get?_remove_of_ne, hl']
  rintro rfl
  exact h hl'

theorem KeepsDirectories.enter (h : KeepsDirectories t t') {name : String}
    (henter : t.enter l name = .ok l') : t'.enter l name = .ok l' := by
  rw [enter_eq_ok_iff] at henter ⊢
  by_cases hdot : name = "."
  · rwa [if_pos hdot] at henter ⊢
  rw [if_neg hdot] at henter ⊢
  by_cases hdots : name = ".."
  · rwa [if_pos hdots] at henter ⊢
  rw [if_neg hdots] at henter ⊢
  obtain ⟨hfits, hdirectory, hl⟩ := henter
  exact ⟨hfits, h.2 _ hdirectory, hl⟩

theorem KeepsDirectories.foldlM_enter (h : KeepsDirectories t t') {names : List String}
    (henter : names.foldlM t.enter l = .ok l') : names.foldlM t'.enter l = .ok l' := by
  induction names generalizing l with
  | nil => exact henter
  | cons name names ih =>
    rw [List.foldlM_cons, bind_eq_ok] at henter ⊢
    obtain ⟨l₁, hfirst, hrest⟩ := henter
    exact ⟨l₁, h.enter hfirst, ih hrest⟩

/-- A path that leads somewhere still leads there. -/
theorem KeepsDirectories.locate (h : KeepsDirectories t t') {place : Target}
    (hlocate : t.locate p = .ok place) : t'.locate p = .ok place := by
  rw [locate_eq_ok_iff] at hlocate ⊢
  obtain ⟨hnul, hempty, hlong, hplace⟩ := hlocate
  refine ⟨hnul, hempty, hlong, ?_⟩
  cases hlast : p.names.getLast? with
  | none =>
    rw [hlast] at hplace
    exact hplace
  | some last =>
    rw [hlast] at hplace
    obtain ⟨l, hwalk, hend⟩ := hplace
    rw [← h.1] at hwalk
    refine ⟨l, h.foldlM_enter hwalk, ?_⟩
    by_cases hdots : last = "." ∨ last = ".."
    · rw [if_pos hdots] at hend ⊢
      obtain ⟨l', henter, hl'⟩ := hend
      exact ⟨l', h.enter henter, hl'⟩
    · rwa [if_neg hdots] at hend ⊢

/-! ### Reading and writing -/

/-- A file can be read if the path leads to it. -/
theorem read_eq_ok_iff : t.read p = .ok content ↔
    ∃ parent name, t.locate p = .ok (.entry parent name false) ∧ nameFits name = true ∧
      t.get? (parent ++ [name]) = some (.file content) := by
  unfold FileTree.read
  rw [bind_eq_ok]
  constructor
  · rintro ⟨place, hlocate, h⟩
    cases place with
    | directory => cases h
    | entry parent name slash =>
      dsimp only at h
      rw [guard_eq_ok] at h
      obtain ⟨hfits, h⟩ := h
      split at h
      · cases h
      · cases h
      · next hentry =>
        split at h
        · cases h
        · next hslash =>
          obtain rfl := pure_eq_ok.1 h
          rw [eq_false_of_ne_true hslash] at hlocate
          exact ⟨parent, name, hlocate, by simpa using hfits, hentry⟩
  · rintro ⟨parent, name, hlocate, hfits, hentry⟩
    refine ⟨_, hlocate, ?_⟩
    dsimp only
    rw [guard_eq_ok, hentry]
    exact ⟨by simpa using hfits, rfl⟩

/-- A file can be written if the path leads to an entry that is no directory. -/
theorem writable_eq_ok_iff : t.writable p = .ok l ↔
    ∃ parent name, t.locate p = .ok (.entry parent name false) ∧ nameFits name = true ∧
      parent ++ [name] = l ∧ t.get? l ≠ some .directory := by
  unfold writable
  rw [bind_eq_ok]
  constructor
  · rintro ⟨place, hlocate, h⟩
    cases place with
    | directory => cases h
    | entry parent name slash =>
      dsimp only at h
      rw [guard_eq_ok, guard_eq_ok] at h
      obtain ⟨hslash, hfits, h⟩ := h
      split at h
      · cases h
      · next hentry =>
        obtain rfl := pure_eq_ok.1 h
        rw [eq_false_of_ne_true hslash] at hlocate
        exact ⟨parent, name, hlocate, by simpa using hfits, rfl, hentry⟩
  · rintro ⟨parent, name, hlocate, hfits, rfl, hentry⟩
    refine ⟨_, hlocate, ?_⟩
    dsimp only
    rw [guard_eq_ok, guard_eq_ok]
    refine ⟨by simp, by simpa using hfits, ?_⟩
    split
    · next hdirectory => exact absurd hdirectory hentry
    · rfl

/-- **What is written is read.** -/
theorem read_write (h : t.write p content = .ok t') : t'.read p = .ok content := by
  unfold write at h
  obtain ⟨l, hplace, ht'⟩ := bind_eq_ok.1 h
  obtain rfl := pure_eq_ok.1 ht'
  obtain ⟨parent, name, hlocate, hfits, rfl, hentry⟩ := writable_eq_ok_iff.1 hplace
  have hkeeps := keepsDirectories_put hentry (.file content)
  exact read_eq_ok_iff.2 ⟨parent, name, hkeeps.locate hlocate, hfits, get?_put (by simp) _⟩

/-- A file can be moved to where a file can be written. -/
theorem rename_eq_ok_iff {source target : Path} : t.rename source target = .ok t' ↔
    ∃ parent name slash content parent' name',
      t.locate source = .ok (.entry parent name slash) ∧
      t.locate target = .ok (.entry parent' name' false) ∧
      (nameFits name = true ∧ nameFits name' = true) ∧
      t.get? (parent ++ [name]) = some (.file content) ∧
      t.get? (parent' ++ [name']) ≠ some .directory ∧
      (t.remove (parent ++ [name])).put (parent' ++ [name']) (.file content) = t' := by
  unfold rename
  rw [bind_eq_ok]
  constructor
  · rintro ⟨place, hsource, h⟩
    obtain ⟨place', htarget, h⟩ := bind_eq_ok.1 h
    cases place with
    | directory => cases h
    | entry parent name slash =>
      cases place' with
      | directory => cases h
      | entry parent' name' slash' =>
        dsimp only at h
        rw [guard_eq_ok] at h
        obtain ⟨hfits, h⟩ := h
        split at h
        · cases h
        · cases h
        · next content hentry =>
          rw [guard_eq_ok, guard_eq_ok, pure_eq_ok] at h
          obtain ⟨hslash, hdirectory, ht'⟩ := h
          rw [eq_false_of_ne_true hslash] at htarget
          exact ⟨parent, name, slash, content, parent', name', hsource, htarget,
            by simpa using hfits, hentry, hdirectory, ht'⟩
  · rintro ⟨parent, name, slash, content, parent', name', hsource, htarget, hfits, hentry,
      hdirectory, rfl⟩
    refine ⟨_, hsource, bind_eq_ok.2 ⟨_, htarget, ?_⟩⟩
    dsimp only
    rw [guard_eq_ok, hentry]
    dsimp only
    rw [guard_eq_ok, guard_eq_ok, pure_eq_ok]
    exact ⟨by simpa using hfits, by simp, hdirectory, rfl⟩

/-- **A file that is moved holds what it held.** -/
theorem read_rename {source target : Path} (hread : t.read source = .ok content)
    (h : t.rename source target = .ok t') : t'.read target = .ok content := by
  obtain ⟨parent, name, hlocate, -, hcontent⟩ := read_eq_ok_iff.1 hread
  obtain ⟨_, _, slash, moved, parent', name', hsource, htarget, ⟨-, hfits⟩, hmoved, hentry, rfl⟩ :=
    rename_eq_ok_iff.1 h
  -- The path that was read leads to the file that was moved.
  obtain ⟨rfl, rfl, -⟩ := Target.entry.inj (Except.ok.inj (hlocate.symm.trans hsource))
  obtain rfl := Entry.file.inj (Option.some.inj (hcontent.symm.trans hmoved))
  have hfile : t.get? (parent ++ [name]) ≠ some .directory := by
    rw [hcontent]
    simp
  have hremove := keepsDirectories_remove hfile
  have hplace : (t.remove (parent ++ [name])).get? (parent' ++ [name']) ≠ some .directory := by
    by_cases hsame : parent' ++ [name'] = parent ++ [name]
    · rw [hsame, get?_remove (by simp)]
      simp
    · rwa [get?_remove_of_ne hsame]
  have hkeeps := hremove.trans (keepsDirectories_put hplace (.file content))
  exact read_eq_ok_iff.2 ⟨parent', name', hkeeps.locate htarget, hfits, get?_put (by simp) _⟩

theorem readText_of_read {text : String} (h : t.read p = .ok text.toUTF8) :
    t.readText p = .ok text := by
  have hdecode : String.fromUTF8? text.toUTF8 = some text := dif_pos text.isValidUTF8
  unfold readText
  rw [h]
  simp only [bind, Except.bind, hdecode]
  rfl

/-- **A text that is written is read.** -/
theorem readText_writeText {text : String} (h : t.writeText p text = .ok t') :
    t'.readText p = .ok text := readText_of_read (read_write h)

end FileTree

end ModalEditor
