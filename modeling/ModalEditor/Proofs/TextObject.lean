import ModalEditor.Proofs.Motion

/-!
# The text between two delimiters

The two delimiters around a place of a line are the nearest ones on either side (`Encloses`): a
bracket under the cursor counts, any other delimiter under it does not.  Such a pair is never one
and the same character (`Lines.Encloses.lt`), and `Lines.inner` is what lies between the two, or
empty where one of them is missing (`Lines.inner_spec`).
-/

namespace ModalEditor

/-- The pairs of brackets. -/
def bracketPairs : List (Char × Char) := [('(', ')'), ('[', ']'), ('\x7b', '\x7d'), ('<', '>')]

namespace Lines

variable {l : List Char} {c : Char} {k n i j : Nat}

/-- The delimiters that `c` names stand around index `k` of the line `l`, at `i` and at `j`. -/
inductive Encloses (l : List Char) (c : Char) (k i j : Nat) : Prop where
  | brackets {opening closing : Char} (hpair : (opening, closing) ∈ bracketPairs)
      (hc : c = opening ∨ c = closing)
      (hi : IsGreatest {i | i ≤ k ∧ l[i]? = some opening} i)
      (hj : IsLeast {j | k ≤ j ∧ l[j]? = some closing} j)
  | alike (hc : ∀ pair ∈ bracketPairs, c ≠ pair.1 ∧ c ≠ pair.2)
      (hi : IsGreatest {i | i < k ∧ l[i]? = some c} i)
      (hj : IsLeast {j | k < j ∧ l[j]? = some c} j)

/-- An opening bracket under the cursor is no closing one, so the two places differ. -/
theorem Encloses.lt (h : Encloses l c k i j) : i < j := by
  cases h with
  | brackets hpair hc hi hj =>
    obtain ⟨⟨hik, hopening⟩, -⟩ := hi
    obtain ⟨⟨hkj, hclosing⟩, -⟩ := hj
    have hdiffer : ∀ pair ∈ bracketPairs, pair.1 ≠ pair.2 := by decide
    refine Nat.lt_of_le_of_ne (Nat.le_trans hik hkj) ?_
    rintro rfl
    exact hdiffer _ hpair (Option.some.inj (hopening.symm.trans hclosing))
  | alike hc hi hj => exact Nat.lt_trans hi.1.1 hj.1.1

theorem Encloses.lt_length (h : Encloses l c k i j) : j < l.length := by
  cases h with
  | brackets hpair hc hi hj => exact (List.getElem?_eq_some_iff.1 hj.1.2).1
  | alike hc hi hj => exact (List.getElem?_eq_some_iff.1 hj.1.2).1

/-! ### The delimiters -/

theorem delimiters_of_mem {pair : Char × Char} (h : pair ∈ bracketPairs) :
    delimiters pair.1 = pair ∧ delimiters pair.2 = pair ∧ pair.1 ≠ pair.2 := by
  revert pair
  decide

theorem delimiters_of_forall_ne (h : ∀ pair ∈ bracketPairs, c ≠ pair.1 ∧ c ≠ pair.2) :
    delimiters c = (c, c) := by
  simp only [bracketPairs, List.forall_mem_cons, List.not_mem_nil, false_implies, implies_true,
    and_true] at h
  simp [delimiters, h]

/-- The delimiters around index `k` are what the two searches of `Lines.inner` find. -/
theorem encloses_iff :
    Encloses l c k i j ↔
      let own := if (delimiters c).1 = (delimiters c).2 then 0 else 1
      lastIndexBefore? l (delimiters c).1 (k + own) = some i ∧
        indexFrom? l (delimiters c).2 (k + 1 - own) = some j := by
  simp only [lastIndexBefore?_eq_some_iff, indexFrom?_eq_some_iff]
  constructor
  · intro h
    cases h with
    | @brackets opening closing hpair hc hi hj =>
      obtain ⟨hopening, hclosing, hne⟩ := delimiters_of_mem hpair
      have hdelimiters : delimiters c = (opening, closing) := by
        rcases hc with rfl | rfl
        · exact hopening
        · exact hclosing
      simp only [hdelimiters, if_neg hne, Nat.lt_succ_iff, Nat.add_sub_cancel]
      exact ⟨hi, hj⟩
    | alike hc hi hj =>
      simp only [delimiters_of_forall_ne hc, if_true]
      exact ⟨hi, hj⟩
  · rintro ⟨hi, hj⟩
    by_cases hc : ∃ pair ∈ bracketPairs, c = pair.1 ∨ c = pair.2
    · obtain ⟨pair, hpair, hc⟩ := hc
      obtain ⟨hopening, hclosing, hne⟩ := delimiters_of_mem hpair
      have hdelimiters : delimiters c = pair := by
        rcases hc with rfl | rfl
        · exact hopening
        · exact hclosing
      simp only [hdelimiters, if_neg hne, Nat.lt_succ_iff, Nat.add_sub_cancel] at hi hj
      exact .brackets hpair hc hi hj
    · have hc : ∀ pair ∈ bracketPairs, c ≠ pair.1 ∧ c ≠ pair.2 := by
        intro pair hpair
        exact ⟨fun h => hc ⟨pair, hpair, .inl h⟩, fun h => hc ⟨pair, hpair, .inr h⟩⟩
      simp only [delimiters_of_forall_ne hc, if_true] at hi hj
      exact .alike hc hi hj

/-! ### The text object -/

theorem inner_of_encloses {ls : Lines} {p q : Position} (hq : ls.clamp p = q)
    (h : Encloses (ls.line q.line) c (min q.column ((ls.line q.line).length - 1)) i j) :
    ls.inner p c = .between ⟨q.line, i + 1⟩ ⟨q.line, j⟩ := by
  obtain ⟨hi, hj⟩ := encloses_iff.1 h
  simp only [inner, hq, hi, hj]

theorem inner_of_not_encloses {ls : Lines} {p q : Position} (hq : ls.clamp p = q)
    (h : ∀ i j, ¬Encloses (ls.line q.line) c (min q.column ((ls.line q.line).length - 1)) i j) :
    ls.inner p c = .point q := by
  simp only [inner, hq]
  split
  · next i j hi hj => exact absurd (encloses_iff.2 ⟨hi, hj⟩) (h i j)
  · rfl

theorem not_encloses_nil : ¬Encloses [] c k i j := by
  intro h
  exact Nat.not_lt_zero _ h.lt_length

/-- Both brackets of a pair name the same text. -/
theorem inner_bracket_eq {pair : Char × Char} (h : pair ∈ bracketPairs) (ls : Lines)
    (p : Position) : ls.inner p pair.1 = ls.inner p pair.2 := by
  obtain ⟨hopening, hclosing, -⟩ := delimiters_of_mem h
  simp only [inner, hopening, hclosing]

/-- **The text object between two delimiters.**  It is what lies strictly between the delimiters
around the cursor, and the empty span at the cursor where one of them is missing, or where the line
is empty; either bracket of a pair names the same text.  It always lies on the line of the
cursor. -/
theorem inner_spec (ls : Lines) (p : Position) (c : Char) :
    let q := ls.clamp p
    let l := ls.line q.line
    let cursor := min q.column (l.length - 1)
    let s := ls.inner p c
    (∀ i j, Encloses l c cursor i j →
      i < j ∧ s.start = ⟨q.line, i + 1⟩ ∧ s.stop = ⟨q.line, j⟩) ∧
    (l = [] ∨ (¬∃ i j, Encloses l c cursor i j) → s = .point q) ∧
    (∀ pair ∈ bracketPairs, c = pair.1 ∨ c = pair.2 →
      ls.inner p pair.1 = s ∧ ls.inner p pair.2 = s) ∧
    s.start.line = q.line ∧ s.stop.line = q.line ∧
    s.start.column ≤ s.stop.column ∧ s.stop.column ≤ l.length := by
  intro q l cursor s
  have hbetween {i j : Nat} (h : Encloses l c cursor i j) :
      s.start = ⟨q.line, i + 1⟩ ∧ s.stop = ⟨q.line, j⟩ := by
    have hle : Position.mk q.line (i + 1) ≤ ⟨q.line, j⟩ := .inr ⟨rfl, h.lt⟩
    have hs : s = .between ⟨q.line, i + 1⟩ ⟨q.line, j⟩ := inner_of_encloses rfl h
    rw [hs, Span.between, dif_pos hle]
    exact ⟨rfl, rfl⟩
  have hpoint (h : ∀ i j, ¬Encloses l c cursor i j) : s = .point q :=
    inner_of_not_encloses rfl h
  refine ⟨fun i j h => ⟨h.lt, hbetween h⟩, ?_, ?_, ?_⟩
  · rintro (hempty | hnone)
    · refine hpoint fun i j h => ?_
      rw [hempty] at h
      exact not_encloses_nil h
    · exact hpoint fun i j h => hnone ⟨i, j, h⟩
  · rintro pair hpair (rfl | rfl)
    · exact ⟨rfl, (inner_bracket_eq hpair ls p).symm⟩
    · exact ⟨inner_bracket_eq hpair ls p, rfl⟩
  · by_cases h : ∃ i j, Encloses l c cursor i j
    · obtain ⟨i, j, h⟩ := h
      obtain ⟨hstart, hstop⟩ := hbetween h
      rw [hstart, hstop]
      exact ⟨rfl, rfl, h.lt, Nat.le_of_lt h.lt_length⟩
    · have hs := hpoint fun i j hij => h ⟨i, j, hij⟩
      rw [hs]
      exact ⟨rfl, rfl, Nat.le_refl _, Nat.min_le_right ..⟩

/-- The line `f("é")`, with the cursor past its end, which counts as on the last bracket, then
between the quotes, and then where no quote is on the left. -/
theorem inner_spec_call :
    let ls : Lines := [['f', '(', '"', 'é', '"', ')']]
    Encloses (ls.line 0) '(' 5 1 5 ∧ Encloses (ls.line 0) '"' 3 2 4 ∧
      (¬∃ i j, Encloses (ls.line 0) '"' 0 i j) ∧
      ((ls.inner ⟨0, 9⟩ '(').start = ⟨0, 2⟩ ∧ (ls.inner ⟨0, 9⟩ '(').stop = ⟨0, 5⟩) ∧
      ls.inner ⟨0, 9⟩ ')' = ls.inner ⟨0, 9⟩ '(' ∧
      ((ls.inner ⟨0, 3⟩ '"').start = ⟨0, 3⟩ ∧ (ls.inner ⟨0, 3⟩ '"').stop = ⟨0, 4⟩) ∧
      ls.inner ⟨0, 0⟩ '"' = .point ⟨0, 0⟩ := by
  intro ls
  have hbrackets : Encloses (ls.line 0) '(' 5 1 5 := encloses_iff.2 (by decide)
  have hquotes : Encloses (ls.line 0) '"' 3 2 4 := encloses_iff.2 (by decide)
  have hnone : ¬∃ i j, Encloses (ls.line 0) '"' 0 i j := by
    rintro ⟨i, j, h⟩
    have hsearch : lastIndexBefore? (ls.line 0) '"' 0 = none := by decide
    cases hsearch.symm.trans (encloses_iff.1 h).1
  obtain ⟨hpast, -, hpair, -⟩ := inner_spec ls ⟨0, 9⟩ '('
  obtain ⟨hinside, -⟩ := inner_spec ls ⟨0, 3⟩ '"'
  obtain ⟨-, houtside, -⟩ := inner_spec ls ⟨0, 0⟩ '"'
  exact ⟨hbrackets, hquotes, hnone, (hpast 1 5 hbrackets).2,
    (hpair ('(', ')') (by decide) (.inl rfl)).2, (hinside 2 4 hquotes).2,
    houtside (.inr hnone)⟩

end Lines

end ModalEditor
