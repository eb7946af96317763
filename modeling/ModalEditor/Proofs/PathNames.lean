import ModalEditor.Files.Store
import ModalEditor.Proofs.FileContents
import ModalEditor.Proofs.Offset

/-!
# The names of a path

The pieces of a path that are not empty are its names.  A name at the end of a directory's path
makes a name more (`Path.names_child`), and taking off the last component gives back the names
before it, but for dots that lead nowhere (`Path.liesIn_of_splitLast?`).

Where a path leads, if it leads anywhere, can be told from its names alone
(`FileTree.location_of_locate`), so that the temporary file of a save is known to lie beside its
target (`FileTree.beside_temporary`).
-/

namespace ModalEditor

namespace Path

variable {p q parent : Path} {name : String} {piece : List Char}

/-! ### Pieces and names -/

theorem not_mem_of_mem_pieces (h : piece ∈ p.pieces) : '/' ∉ piece := not_mem_of_mem_splitOn h

/-- A path is absolute if nothing stands before its first slash. -/
theorem isAbsolute_iff : p.isAbsolute = true ↔ p.text ≠ "" ∧ p.pieces.head? = some [] := by
  have hempty : p.text = "" ↔ p.text.toList = [] := by
    rw [← String.toList_inj]
    rfl
  rw [isAbsolute, pieces, ne_eq, hempty]
  cases p.text.toList with
  | nil => simp
  | cons c cs =>
    rw [List.splitOn_cons_eq_if_modifyHead]
    by_cases hc : c = '/'
    · simp [hc]
    · obtain ⟨m, ms, hm⟩ := List.exists_cons_of_ne_nil (List.splitOn_ne_nil '/' cs)
      simp [hc, hm]

/-- Without a name there are only slashes. -/
theorem isAbsolute_of_names_eq_nil (htext : p.text ≠ "") (h : p.names = []) :
    p.isAbsolute = true := by
  rw [isAbsolute_iff]
  refine ⟨htext, ?_⟩
  obtain ⟨first, rest, hpieces⟩ :=
    List.exists_cons_of_ne_nil (List.splitOn_ne_nil '/' p.text.toList)
  rw [names, List.map_eq_nil_iff, List.filter_eq_nil_iff] at h
  have hfirst : first ∈ p.pieces := by
    rw [pieces, hpieces]
    exact List.mem_cons_self
  rw [pieces, hpieces, List.head?_cons]
  simpa using h first hfirst

/-- A slash joins the names before it to those after it. -/
theorem names_append_slash (front back : String) :
    names ⟨front ++ "/" ++ back⟩ = names ⟨front⟩ ++ names ⟨back⟩ := by
  have htext : (front ++ "/" ++ back).toList = front.toList ++ '/' :: back.toList := by simp
  rw [names, names, names, pieces, pieces, pieces, htext, List.splitOn_append_cons_self,
    List.filter_append, List.map_append]

theorem names_of_not_mem (hslash : '/' ∉ name.toList) (hname : name ≠ "") :
    names ⟨name⟩ = [name] := by
  have hne : name.toList ≠ [] := by simpa using hname
  rw [names, pieces, List.splitOn_eq_singleton hslash]
  simp [hne]

theorem names_child (hslash : '/' ∉ name.toList) (hname : name ≠ "") :
    (p.child name).names = p.names ++ [name] := by
  rw [← names_of_not_mem hslash hname, child]
  split
  · next h =>
    rcases h with h | h
    · obtain ⟨text⟩ := p
      obtain rfl : text = "" := h
      simp [names, pieces]
    · -- The slash that is there already serves.
      obtain ⟨text⟩ := p
      obtain ⟨front, hfront⟩ := List.getLast?_eq_some_iff.1 h
      have htext : text = String.ofList front ++ "/" ++ "" := by
        rw [← String.toList_inj]
        simpa using hfront
      have hnone : names ⟨""⟩ = [] := by decide
      rw [htext, names_append_slash, hnone, List.append_nil, String.append_empty,
        names_append_slash]
  · exact names_append_slash p.text name

theorem isAbsolute_child (hslash : '/' ∉ name.toList) :
    (p.child name).isAbsolute = p.isAbsolute := by
  have hhead : name.toList.head? ≠ some '/' := fun h => hslash (List.mem_of_mem_head? h)
  have happend (back : String) (h : p.text ≠ "") :
      isAbsolute ⟨p.text ++ back⟩ = p.isAbsolute := by
    have hne : p.text.toList ≠ [] := by simpa using h
    obtain ⟨c, cs, hcons⟩ := List.exists_cons_of_ne_nil hne
    rw [isAbsolute, isAbsolute, String.toList_append, hcons]
    rfl
  rw [child]
  by_cases hempty : p.text = ""
  · rw [if_pos (.inl hempty), isAbsolute, isAbsolute, hempty, String.empty_append]
    simpa using hhead
  · split
    · exact happend _ hempty
    · rw [String.append_assoc]
      exact happend _ hempty

/-! ### The last component -/

theorem exists_trimFillers_append (pieces : List (List Char)) :
    ∃ fillers, (∀ piece ∈ fillers, isFiller piece = true) ∧
      trimFillers pieces ++ fillers = pieces := by
  refine ⟨(pieces.reverse.takeWhile isFiller).reverse, ?_, ?_⟩
  · intro piece hpiece
    exact List.all_eq_true.1 List.all_takeWhile piece (List.mem_reverse.1 hpiece)
  · rw [trimFillers, ← List.reverse_append, List.takeWhile_append_dropWhile, List.reverse_reverse]

theorem isFiller_of_getLast?_trimFillers {pieces : List (List Char)}
    (h : (trimFillers pieces).getLast? = some piece) : isFiller piece = false := by
  rw [trimFillers, List.getLast?_reverse] at h
  have hnot := List.head?_dropWhile_not isFiller pieces.reverse
  rw [h] at hnot
  simpa using hnot

/-- The names of pieces. -/
def namesOf (pieces : List (List Char)) : List String :=
  (pieces.filter (· ≠ [])).map String.ofList

theorem namesOf_append (front back : List (List Char)) :
    namesOf (front ++ back) = namesOf front ++ namesOf back := by
  rw [namesOf, List.filter_append, List.map_append]
  rfl

theorem namesOf_cons (h : piece ≠ []) (rest : List (List Char)) :
    namesOf (piece :: rest) = String.ofList piece :: namesOf rest := by
  rw [namesOf, List.filter_cons_of_pos (by simpa using h)]
  rfl

theorem eq_dot_of_mem_namesOf {fillers : List (List Char)}
    (h : ∀ piece ∈ fillers, isFiller piece = true) : ∀ name ∈ namesOf fillers, name = "." := by
  intro name hname
  obtain ⟨piece, hpiece, rfl⟩ := List.mem_map.1 hname
  obtain ⟨hmem, hne⟩ := List.mem_filter.1 hpiece
  have hdot : piece = ['.'] := by simpa [isFiller, of_decide_eq_true hne] using h piece hmem
  rw [hdot]

/-- Pieces put together again: they are absolute if the first of them is empty. -/
theorem names_isAbsolute_join (first : List Char) (rest : List (List Char))
    (h : ∀ piece ∈ first :: rest, '/' ∉ piece) :
    let text := if first :: rest = [[]] then ['/'] else ['/'].intercalate (first :: rest)
    names ⟨String.ofList text⟩ = namesOf (first :: rest) ∧
      (isAbsolute ⟨String.ofList text⟩ = true ↔ first = []) := by
  intro text
  by_cases hroot : first :: rest = [[]]
  · obtain ⟨rfl, rfl⟩ := List.cons.inj hroot
    exact ⟨by decide, by decide⟩
  · have hpieces : pieces ⟨String.ofList text⟩ = first :: rest := by
      rw [pieces, String.toList_ofList]
      exact (congrArg _ (if_neg hroot)).trans
        (List.splitOn_intercalate '/' h (List.cons_ne_nil _ _))
    have htext : String.ofList text ≠ "" := by
      intro hempty
      rw [hempty] at hpieces
      exact hroot hpieces.symm
    refine ⟨by rw [names, hpieces]; rfl, ?_⟩
    rw [isAbsolute_iff, hpieces]
    simp [htext]

/-- `p` is the path of `name` in `parent`, with dots before and after the name that lead nowhere. -/
structure LiesIn (p parent : Path) (name : String) : Prop where
  names : ∃ dots dots', p.names = parent.names ++ dots ++ name :: dots' ∧
    (∀ d ∈ dots, d = ".") ∧ ∀ d ∈ dots', d = "."
  isAbsolute : p.isAbsolute = parent.isAbsolute
  ne_empty : name ≠ ""
  slash_not_mem : '/' ∉ name.toList

/-- The last piece that is no filler lies in what is before it. -/
theorem LiesIn.of_pieces {before fillers fillers' : List (List Char)} {last : List Char}
    (hpieces : p.pieces = before ++ fillers ++ last :: fillers')
    (hfillers : ∀ piece ∈ fillers, isFiller piece = true)
    (hfillers' : ∀ piece ∈ fillers', isFiller piece = true) (hlast : last ≠ [])
    (hparent : parent.names = namesOf before) (habsolute : p.isAbsolute = parent.isAbsolute) :
    p.LiesIn parent (String.ofList last) := by
  refine ⟨⟨namesOf fillers, namesOf fillers', ?_, eq_dot_of_mem_namesOf hfillers,
    eq_dot_of_mem_namesOf hfillers'⟩, habsolute, by simpa using hlast, ?_⟩
  · rw [hparent, ← namesOf_cons hlast, ← namesOf_append, ← namesOf_append, ← hpieces]
    rfl
  · rw [String.toList_ofList]
    refine not_mem_of_mem_pieces (p := p) ?_
    rw [hpieces]
    exact List.mem_append_right _ List.mem_cons_self

theorem liesIn_of_splitLast? (h : p.splitLast? = some (parent, name)) : p.LiesIn parent name := by
  unfold splitLast? at h
  split at h
  · cases h
  next first rest hpieces =>
  obtain ⟨fillers', hfillers', hrest⟩ := exists_trimFillers_append rest
  dsimp only at h
  split at h
  · next last hlast =>
    obtain ⟨rfl, rfl⟩ := Prod.mk.inj (Option.some.inj h)
    obtain ⟨front, hfront⟩ := List.getLast?_eq_some_iff.1 hlast
    obtain ⟨fillers, hfillers, hbefore⟩ := exists_trimFillers_append front
    have hall : p.pieces = (first :: trimFillers front) ++ fillers ++ last :: fillers' := by
      rw [hpieces, ← hrest, hfront, List.cons_append, hbefore]
      simp
    have hlastName : last ≠ [] := by
      rintro rfl
      cases isFiller_of_getLast?_trimFillers hlast
    have hempty : p.text ≠ "" := by
      obtain ⟨text⟩ := p
      rintro rfl
      obtain ⟨-, rfl⟩ := List.cons.inj (hpieces.symm.trans (List.splitOn_nil '/'))
      cases hlast
    rw [hfront, List.dropLast_concat]
    obtain ⟨hnames, habsolute⟩ := names_isAbsolute_join first (trimFillers front)
      fun piece hpiece => not_mem_of_mem_pieces (p := p)
        (by rw [hall]; exact List.mem_append_left _ (List.mem_append_left _ hpiece))
    refine .of_pieces hall hfillers hfillers' hlastName hnames ?_
    rw [Bool.eq_iff_iff, habsolute, isAbsolute_iff, hpieces]
    simp [hempty]
  · next hnone =>
    split at h
    · cases h
    next hfirst =>
    obtain ⟨rfl, rfl⟩ := Prod.mk.inj (Option.some.inj h)
    -- After the first piece there are fillers only.
    have hfillers : fillers' = rest := by
      rw [← hrest, List.getLast?_eq_none_iff.1 hnone, List.nil_append]
    subst hfillers
    have hrelative : ¬p.isAbsolute = true := by
      rw [isAbsolute_iff, hpieces]
      simp [hfirst]
    have hall : p.pieces = [] ++ [] ++ first :: fillers' := hpieces
    exact .of_pieces hall (by simp) hfillers' hfirst rfl (eq_false_of_ne_true hrelative)

/-- The temporary file lies in the directory of the target, under a longer name. -/
theorem liesIn_of_temporary? (h : p.temporary? = some q) :
    ∃ parent name, p.LiesIn parent name ∧ q.LiesIn parent (name ++ ".tmp") ∧
      name ≠ "." ∧ name ≠ ".." := by
  unfold temporary? fileName? parent? at h
  cases hsplit : p.splitLast? with
  | none =>
    rw [hsplit] at h
    cases h
  | some last =>
    obtain ⟨parent, name⟩ := last
    rw [hsplit] at h
    dsimp only at h
    split at h
    · cases h
    next hdots =>
    obtain rfl : parent.child (name ++ ".tmp") = q := Option.some.inj h
    have hp := liesIn_of_splitLast? hsplit
    have hempty : name ++ ".tmp" ≠ "" := by simp
    have hslash : '/' ∉ (name ++ ".tmp").toList := by
      simpa using hp.slash_not_mem
    refine ⟨parent, name, hp, ⟨⟨[], [], ?_, by simp, by simp⟩, ?_, hempty, hslash⟩,
      not_or.1 hdots⟩
    · rw [names_child hslash hempty, List.append_nil]
    · exact isAbsolute_child hslash

end Path

namespace FileTree

variable {t t' : FileTree} {p q parent : Path} {name : String} {l l' : Location} {place : Target}
  {ls : Lines}

/-! ### Where paths lead -/

/-- The place of what a path leads to. -/
def Target.location : Target → Location
  | .directory l => l
  | .entry parent name _ => parent ++ [name]

/-- The place a path leads to, if it leads anywhere. -/
def place? (t : FileTree) (p : Path) : Option Location := (t.locate p).toOption.map Target.location

theorem place?_eq_some_iff :
    t.place? p = some l ↔ ∃ place, t.locate p = .ok place ∧ place.location = l := by
  rw [place?]
  cases t.locate p <;> simp [Except.toOption]

/-- Where a name leads if there is something. -/
def follow (l : Location) (name : String) : Location :=
  if name = "." then l else if name = ".." then l.dropLast else l ++ [name]

theorem follow_of_enter (h : t.enter l name = .ok l') : follow l name = l' := by
  rw [enter_eq_ok_iff] at h
  unfold follow
  split
  · rwa [if_pos ‹_›] at h
  rw [if_neg ‹_›] at h
  split
  · rwa [if_pos ‹_›] at h
  rw [if_neg ‹_›] at h
  exact h.2.2

theorem foldl_follow_of_foldlM_enter {names : List String}
    (h : names.foldlM t.enter l = .ok l') : names.foldl follow l = l' := by
  induction names generalizing l with
  | nil => exact Except.ok.inj h
  | cons name names ih =>
    rw [List.foldlM_cons, bind_eq_ok] at h
    obtain ⟨l₁, hfirst, hrest⟩ := h
    rw [List.foldl_cons, follow_of_enter hfirst, ih hrest]

theorem foldl_follow_dots {dots : List String} (h : ∀ d ∈ dots, d = ".") (l : Location) :
    dots.foldl follow l = l := by
  induction dots with
  | nil => rfl
  | cons d dots ih =>
    obtain rfl := h d List.mem_cons_self
    exact ih fun d hd => h d (List.mem_cons_of_mem _ hd)

/-- A path that leads somewhere leads where its names lead. -/
theorem location_of_locate (h : t.locate p = .ok place) :
    place.location = p.names.foldl follow (if p.isAbsolute then [] else t.here) := by
  obtain ⟨-, htext, -, hplace⟩ := locate_eq_ok_iff.1 h
  cases hlast : p.names.getLast? with
  | none =>
    rw [hlast] at hplace
    have hnames := List.getLast?_eq_none_iff.1 hlast
    rw [← hplace, hnames, if_pos (Path.isAbsolute_of_names_eq_nil htext hnames)]
    rfl
  | some last =>
    rw [hlast] at hplace
    obtain ⟨l, hwalk, hend⟩ := hplace
    obtain ⟨front, hfront⟩ := List.getLast?_eq_some_iff.1 hlast
    rw [hfront, List.dropLast_concat] at hwalk
    rw [hfront, List.foldl_append, foldl_follow_of_foldlM_enter hwalk]
    split at hend
    · obtain ⟨l', henter, rfl⟩ := hend
      exact (follow_of_enter henter).symm
    · next hdots =>
      subst hend
      obtain ⟨hdot, hdotdot⟩ := not_or.1 hdots
      exact ((if_neg hdot).trans (if_neg hdotdot)).symm

/-- What lies in a directory leads to an entry of it. -/
theorem location_of_liesIn (hname : name ≠ "." ∧ name ≠ "..") (hp : p.LiesIn parent name)
    (h : t.locate p = .ok place) :
    place.location =
      parent.names.foldl follow (if parent.isAbsolute then [] else t.here) ++ [name] := by
  obtain ⟨dots, dots', hnames, hdots, hdots'⟩ := hp.names
  rw [location_of_locate h, hnames, hp.isAbsolute, List.foldl_append, List.foldl_append,
    foldl_follow_dots hdots, List.foldl_cons, foldl_follow_dots hdots']
  exact (if_neg hname.1).trans (if_neg hname.2)

theorem ne_append_tmp (parent : Location) (name : String) :
    parent ++ [name] ≠ parent ++ [name ++ ".tmp"] := by
  intro h
  obtain ⟨hname, -⟩ := List.cons.inj (List.append_cancel_left h)
  have hlength := congrArg String.length hname
  have htmp : ".tmp".length = 4 := by decide
  rw [String.length_append] at hlength
  omega

/-- **The temporary file lies beside the target.** -/
theorem beside_temporary (hq : p.temporary? = some q) :
    ∃ parent name, (∀ l, t.place? p = some l → l = parent ++ [name]) ∧
      ∀ l, t.place? q = some l → l = parent ++ [name ++ ".tmp"] := by
  obtain ⟨parent, name, hp, hq, hname⟩ := Path.liesIn_of_temporary? hq
  have hlong : name ++ ".tmp" ≠ "." ∧ name ++ ".tmp" ≠ ".." := by
    have hlength : 4 ≤ (name ++ ".tmp").length := by
      rw [String.length_append]
      exact Nat.le_add_left ..
    constructor <;> intro h <;> rw [h] at hlength <;> exact absurd hlength (by decide)
  refine ⟨parent.names.foldl follow (if parent.isAbsolute then [] else t.here), name,
    fun l h => ?_, fun l h => ?_⟩
  · obtain ⟨place, hlocate, rfl⟩ := place?_eq_some_iff.1 h
    exact location_of_liesIn hname hp hlocate
  · obtain ⟨place, hlocate, rfl⟩ := place?_eq_some_iff.1 h
    exact location_of_liesIn hlong hq hlocate

end FileTree

end ModalEditor
