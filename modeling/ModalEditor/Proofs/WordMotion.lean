import Mathlib.Order.Bounds.Basic
import ModalEditor.Proofs.OperatorRange

/-!
# Motions over words

A word starts at a character that is not blank and stands at the start of its line or after a
character of another class (`CharClass.IsWordStart`).  The motions scan runs of one class and runs
of blanks; where they stop is said here in terms of word starts alone.

* The next word is at the first word start after the place, or on the next line
  (`Lines.NextStart`).
* The previous word is at the last word start before the place, or on the line before
  (`Lines.PreviousStart`).

A scan is followed character by character: what the scan over `d :: l` finds is what the scan over
`l` finds, unless a word starts right there.  Going on from word to word then visits all word starts
of the text in order (`Lines.exists_iterate_nextWord`).
-/

namespace ModalEditor

namespace CharClass

variable {separators l : List Char} {c d : Char} {i j : Nat}

@[simp] theorem of_eq_blank_iff : of separators c = blank ↔ isBlank c = true := by
  rw [of]
  split
  · next h => simp [h]
  · next h => split <;> simp [h]

/-! ### Word starts in parts of a line -/

theorem IsWordStart.lt_length (h : IsWordStart separators l i) : i < l.length := by
  obtain ⟨c, hc, -⟩ := h
  exact (List.getElem?_eq_some_iff.1 hc).1

/-- The first character starts a word if it is not blank. -/
theorem isWordStart_zero (separators : List Char) (c : Char) (l : List Char) :
    IsWordStart separators (c :: l) 0 ↔ isBlank c = false := by
  simp [IsWordStart]

/-- A character starts a word if it is not blank and of another class than the one before. -/
theorem isWordStart_one (separators : List Char) (c d : Char) (l : List Char) :
    IsWordStart separators (c :: d :: l) 1 ↔
      isBlank d = false ∧ of separators c ≠ of separators d := by
  simp [IsWordStart]

/-- After its first character, the rest of a line has the word starts that the line has there. -/
theorem isWordStart_drop (separators l : List Char) (n : Nat) (hj : 0 < j) :
    IsWordStart separators (l.drop n) j ↔ IsWordStart separators l (n + j) := by
  have hindex : n + (j - 1) = n + j - 1 := by omega
  have hj' : j ≠ 0 := by omega
  simp [IsWordStart, hindex, hj']

/-- The front of a line has the word starts that the line has there. -/
theorem isWordStart_take (separators l : List Char) {n : Nat} (hi : i < n) :
    IsWordStart separators (l.take n) i ↔ IsWordStart separators l i := by
  have hbefore : i - 1 < n := by omega
  simp [IsWordStart, List.getElem?_take_of_lt hi, List.getElem?_take_of_lt hbefore]

theorem isWordStart_append (m : List Char) (hi : i < l.length) :
    IsWordStart separators (l ++ m) i ↔ IsWordStart separators l i := by
  rw [← isWordStart_take separators (l ++ m) hi, List.take_left]

/-- The last of three characters starts a word as it does after the second. -/
theorem isWordStart_last (separators : List Char) (l : List Char) (d c : Char) :
    IsWordStart separators (l ++ [d] ++ [c]) (l.length + 1) ↔
      isBlank c = false ∧ of separators d ≠ of separators c := by
  have hdrop := isWordStart_drop separators (l ++ [d] ++ [c]) l.length Nat.one_pos
  rw [List.append_assoc, List.drop_left] at hdrop
  rw [List.append_assoc, ← hdrop]
  exact isWordStart_one separators d c []

end CharClass

namespace Lines

open CharClass (IsWordStart)

variable {ls : Lines} {separators : List Char} {p q : Position}

/-! ### Scanning forward -/

/-- How many characters of `l` come before the next word, after a character of class `k`. -/
def gapAfter (separators : List Char) (k : CharClass) (l : List Char) : Nat :=
  let rest := if k = .blank then l else l.dropWhile fun d => CharClass.of separators d = k
  l.length - (rest.dropWhile isBlank).length

theorem gapAfter_le (separators : List Char) (k : CharClass) (l : List Char) :
    gapAfter separators k l ≤ l.length := Nat.sub_le ..

/-- The scan stops where a word starts, and otherwise goes on after the next character. -/
theorem gapAfter_cons (separators : List Char) (k : CharClass) (d : Char) (l : List Char) :
    gapAfter separators k (d :: l) =
      if isBlank d = false ∧ k ≠ CharClass.of separators d then 0
      else gapAfter separators (CharClass.of separators d) l + 1 := by
  have hle (m : List Char) : (m.dropWhile isBlank).length ≤ m.length :=
    (List.dropWhile_suffix isBlank).length_le
  have hrun (k : CharClass) :
      (l.dropWhile fun d => decide (CharClass.of separators d = k)).length ≤ l.length :=
    (List.dropWhile_suffix _).length_le
  by_cases hd : isBlank d = true
  · have hclass : CharClass.of separators d = .blank := CharClass.of_eq_blank_iff.2 hd
    have hlength := hle l
    by_cases hk : k = .blank
    · simp [gapAfter, hd, hk, hclass]
      omega
    · simp [gapAfter, hd, hk, hclass, Ne.symm hk]
      omega
  · have hclass : CharClass.of separators d ≠ .blank := mt CharClass.of_eq_blank_iff.1 hd
    by_cases hk : k = CharClass.of separators d
    · -- The run goes on.
      subst hk
      have hlength := Nat.le_trans (hle _) (hrun (CharClass.of separators d))
      simp [gapAfter, hd]
      omega
    · have hk' : CharClass.of separators d ≠ k := Ne.symm hk
      by_cases hblank : k = .blank
      · simp [gapAfter, hd, hblank, Ne.symm hclass]
      · simp [gapAfter, hd, hk, hk', hblank]

theorem wordGap_cons (separators : List Char) (c : Char) (l : List Char) :
    wordGap separators (c :: l) = gapAfter separators (CharClass.of separators c) l + 1 := by
  have hle (m : List Char) : (m.dropWhile isBlank).length ≤ m.length :=
    (List.dropWhile_suffix isBlank).length_le
  by_cases hc : isBlank c = true
  · have hlength := hle l
    simp [wordGap, gapAfter, hc]
    omega
  · have hlength := Nat.le_trans (hle _)
      (List.dropWhile_suffix
        (fun d => decide (CharClass.of separators d = CharClass.of separators c)) (l := l)).length_le
    simp [wordGap, gapAfter, hc]
    omega

/-- No word starts on the way of the scan, and one does where it stops within the line. -/
theorem gapAfter_spec (separators : List Char) (c : Char) (l : List Char) :
    let gap := gapAfter separators (CharClass.of separators c) l
    (∀ j < gap, ¬IsWordStart separators (c :: l) (j + 1)) ∧
      (gap < l.length → IsWordStart separators (c :: l) (gap + 1)) := by
  induction l generalizing c with
  | nil =>
    refine ⟨fun j hj => ?_, fun h => absurd h (Nat.not_lt_zero _)⟩
    exact absurd (Nat.lt_of_lt_of_le hj (gapAfter_le ..)) (Nat.not_lt_zero j)
  | cons d l ih =>
    have hone := CharClass.isWordStart_one separators c d l
    have hlater (j : Nat) : IsWordStart separators (c :: d :: l) (j + 1 + 1) ↔
        IsWordStart separators (d :: l) (j + 1) := by
      rw [Nat.add_comm (j + 1) 1]
      exact (CharClass.isWordStart_drop _ _ 1 (Nat.succ_pos j)).symm
    obtain ⟨hnone, hstart⟩ := ih d
    rw [gapAfter_cons]
    by_cases hd : isBlank d = false ∧ CharClass.of separators c ≠ CharClass.of separators d
    · simp only [if_pos hd]
      exact ⟨fun j hj => absurd hj (Nat.not_lt_zero j), fun _ => hone.2 hd⟩
    · simp only [if_neg hd]
      refine ⟨fun j hj => ?_, fun h => (hlater _).2 (hstart (Nat.lt_of_succ_lt_succ h))⟩
      cases j with
      | zero => exact mt hone.1 hd
      | succ j => exact mt (hlater j).1 (hnone j (Nat.lt_of_succ_lt_succ hj))

/-- From a place on the line, the gap leads to the first word start after it or to the end. -/
theorem wordGap_spec (separators l : List Char) {c : Nat} (hc : c ≤ l.length) :
    let i := c + wordGap separators (l.drop c)
    (∀ j, c < j → j < i → ¬IsWordStart separators l j) ∧
      (i < l.length → c < i ∧ IsWordStart separators l i) ∧ i ≤ l.length := by
  intro i
  rcases Nat.lt_or_eq_of_le hc with hlt | rfl
  · have hdrop : l.drop c = l[c] :: l.drop (c + 1) := List.drop_eq_getElem_cons hlt
    let gap := gapAfter separators (CharClass.of separators l[c]) (l.drop (c + 1))
    have hi : i = c + (gap + 1) := by
      show c + wordGap separators (l.drop c) = _
      rw [hdrop, wordGap_cons]
    have hrest : (l.drop (c + 1)).length = l.length - (c + 1) := List.length_drop
    have hle : gap ≤ (l.drop (c + 1)).length := gapAfter_le ..
    have hshift (j : Nat) : IsWordStart separators (l[c] :: l.drop (c + 1)) (j + 1) ↔
        IsWordStart separators l (c + (j + 1)) := by
      rw [← hdrop]
      exact CharClass.isWordStart_drop _ _ c (Nat.succ_pos j)
    obtain ⟨hnone, hstart⟩ := gapAfter_spec separators l[c] (l.drop (c + 1))
    rw [hi]
    refine ⟨fun j hcj hj => ?_, fun h => ⟨by omega, (hshift gap).1 (hstart ?_)⟩, by omega⟩
    · obtain ⟨k, rfl⟩ : ∃ k, j = c + (k + 1) := ⟨j - c - 1, by omega⟩
      exact mt (hshift k).2 (hnone k (by omega))
    · show gap < _
      omega
  · have hi : i = l.length := by simp [i, wordGap]
    rw [hi]
    exact ⟨fun j h h' => absurd h' (by omega), fun h => absurd h (Nat.lt_irrefl _), Nat.le_refl _⟩

/-! ### Scanning backward -/

/-- Where the run of class `k` at the end of `l` begins. -/
def runStart (separators : List Char) (k : CharClass) (l : List Char) : Nat :=
  (l.reverse.dropWhile fun d => CharClass.of separators d = k).length

theorem runStart_snoc (separators : List Char) (k : CharClass) (l : List Char) (d : Char) :
    runStart separators k (l ++ [d]) =
      if CharClass.of separators d = k then runStart separators k l else l.length + 1 := by
  by_cases hd : CharClass.of separators d = k <;> simp [runStart, hd]

/-- The word that a character belongs to starts where the run before the character begins. -/
theorem isGreatest_runStart {c : Char} (hc : isBlank c = false) (l : List Char) :
    IsGreatest {i | IsWordStart separators (l ++ [c]) i}
      (runStart separators (CharClass.of separators c) l) := by
  induction l using List.reverseRecOn generalizing c with
  | nil =>
    refine ⟨(CharClass.isWordStart_zero separators c []).2 hc, fun i hi => ?_⟩
    exact Nat.le_of_lt_succ hi.lt_length
  | append_singleton l d ih =>
    have hlast := CharClass.isWordStart_last separators l d c
    have hlength : (l ++ [d]).length = l.length + 1 := by simp
    rw [runStart_snoc]
    by_cases hd : CharClass.of separators d = CharClass.of separators c
    · -- The run goes on.
      have hclass : CharClass.of separators d ≠ .blank := by
        rw [hd, Ne, CharClass.of_eq_blank_iff, hc]
        simp
      have hdc : isBlank d = false := by simpa using hclass
      obtain ⟨hstart, hgreatest⟩ := ih hdc
      rw [if_pos hd, ← hd]
      refine ⟨(CharClass.isWordStart_append [c] hstart.lt_length).2 hstart, fun i hi => ?_⟩
      have hi' := IsWordStart.lt_length hi
      rw [List.length_append, hlength, List.length_singleton] at hi'
      have hne : i ≠ l.length + 1 := by
        rintro rfl
        exact (hlast.1 hi).2 hd
      exact hgreatest ((CharClass.isWordStart_append [c] (by omega)).1 hi)
    · rw [if_neg hd]
      refine ⟨hlast.2 ⟨hc, hd⟩, fun i hi => ?_⟩
      have hi' := IsWordStart.lt_length hi
      rw [List.length_append, hlength, List.length_singleton] at hi'
      omega

/-- The last word of a line is at its last word start; a line without words counts as one word. -/
theorem lastWordStart_spec (separators l : List Char) :
    IsGreatest {i | IsWordStart separators l i} (lastWordStart separators l) ∨
      (∀ i, ¬IsWordStart separators l i) ∧ lastWordStart separators l = 0 := by
  induction l using List.reverseRecOn with
  | nil => exact .inr ⟨fun i hi => absurd hi.lt_length (Nat.not_lt_zero i), rfl⟩
  | append_singleton l c ih =>
    by_cases hc : isBlank c = true
    · have hsame : lastWordStart separators (l ++ [c]) = lastWordStart separators l := by
        simp [lastWordStart, hc]
      -- A blank at the end starts no word.
      have hiff (i : Nat) :
          IsWordStart separators (l ++ [c]) i ↔ IsWordStart separators l i := by
        constructor
        · intro hi
          have hlt := hi.lt_length
          rw [List.length_append, List.length_singleton] at hlt
          have hne : i ≠ l.length := by
            rintro rfl
            obtain ⟨d, hd, hblank, -⟩ := hi
            rw [List.getElem?_concat_length] at hd
            obtain rfl := Option.some.inj hd
            exact hblank (CharClass.of_eq_blank_iff.2 hc)
          exact (CharClass.isWordStart_append [c] (by omega)).1 hi
        · intro hi
          exact (CharClass.isWordStart_append [c] hi.lt_length).2 hi
      simp only [hsame, hiff]
      exact ih
    · have hrun : lastWordStart separators (l ++ [c]) =
          runStart separators (CharClass.of separators c) l := by
        simp [lastWordStart, runStart, hc]
      rw [hrun]
      exact .inl (isGreatest_runStart (by simpa using hc) l)

/-! ### Where the motions lead -/

/-- Where the next word after a place is: at the first word start after it on its line, or else at
the first character of the next line that is not blank, or at its end if there is none, or, on the
last line, at the end of the line. -/
inductive NextStart (ls : Lines) (separators : List Char) (p : Position) : Position → Prop where
  | onLine {i : Nat}
      (h : IsLeast {i | p.column < i ∧ IsWordStart separators (ls.line p.line) i} i) :
      NextStart ls separators p ⟨p.line, i⟩
  | below (hnone : ∀ i, p.column < i → ¬IsWordStart separators (ls.line p.line) i)
      (h : p.line < ls.lastLine) :
      NextStart ls separators p
        ⟨p.line + 1, (ls.line (p.line + 1)).findIdx fun c => !isBlank c⟩
  | atEnd (hnone : ∀ i, p.column < i → ¬IsWordStart separators (ls.line p.line) i)
      (h : p.line = ls.lastLine) :
      NextStart ls separators p (ls.lineEnd p.line)

/-- The last word start of line `n` before column `c`, or the start of the line. -/
inductive LastStart (ls : Lines) (separators : List Char) (n c : Nat) : Position → Prop where
  | word {i : Nat} (h : IsGreatest {i | i < c ∧ IsWordStart separators (ls.line n) i} i) :
      LastStart ls separators n c ⟨n, i⟩
  | lineStart (hnone : ∀ i < c, ¬IsWordStart separators (ls.line n) i) :
      LastStart ls separators n c ⟨n, 0⟩

/-- Where the word before a place is: on its line, or, from the start of a line, on the line
before. -/
inductive PreviousStart (ls : Lines) (separators : List Char) (p : Position) :
    Position → Prop where
  | onLine {q : Position} (hcolumn : 0 < p.column)
      (h : LastStart ls separators p.line p.column q) : PreviousStart ls separators p q
  | above {q : Position} (hcolumn : p.column = 0) (hline : 0 < p.line)
      (h : LastStart ls separators (p.line - 1) (ls.lineLength (p.line - 1)) q) :
      PreviousStart ls separators p q
  | atStart (h : p = .origin) : PreviousStart ls separators p p

theorem line_clamp_le (ls : Lines) (p : Position) : (ls.clamp p).line ≤ ls.lastLine :=
  Nat.min_le_right ..

theorem column_clamp_le (ls : Lines) (p : Position) :
    (ls.clamp p).column ≤ ls.lineLength (ls.clamp p).line := Nat.min_le_right ..

theorem length_takeWhile_isBlank (l : List Char) :
    (l.takeWhile isBlank).length = l.findIdx fun c => !isBlank c := by
  induction l with
  | nil => rfl
  | cons c l ih =>
    rw [List.findIdx_cons, ← ih, List.takeWhile_cons]
    cases isBlank c <;> rfl

theorem nextStart_nextWord (ls : Lines) (separators : List Char) (p : Position) :
    ls.NextStart separators (ls.clamp p) (ls.nextWord separators p) := by
  rw [nextWord]
  have hline := line_clamp_le ls p
  have hcolumn := column_clamp_le ls p
  generalize ls.clamp p = q at hline hcolumn ⊢
  obtain ⟨hnone, hstart, -⟩ := wordGap_spec separators (ls.line q.line) hcolumn
  generalize q.column + wordGap separators ((ls.line q.line).drop q.column) = i at hnone hstart ⊢
  split
  · next hi =>
    refine .onLine ⟨hstart hi, fun j hj => ?_⟩
    by_contra hlt
    exact hnone j hj.1 (Nat.lt_of_not_le hlt) hj.2
  · next hi =>
    have hnone' (j : Nat) (hj : q.column < j) : ¬IsWordStart separators (ls.line q.line) j := by
      intro hword
      have hlength := hword.lt_length
      exact hnone j hj (Nat.lt_of_lt_of_le hlength (Nat.le_of_not_lt hi)) hword
    split
    · next h =>
      rw [length_takeWhile_isBlank]
      exact .below hnone' h
    · next h => exact .atEnd hnone' (by omega)

/-- The last word of the front of a line. -/
theorem lastStart_take (ls : Lines) (separators : List Char) (n c : Nat) :
    ls.LastStart separators n c ⟨n, lastWordStart separators ((ls.line n).take c)⟩ := by
  have hiff (i : Nat) (hi : i < c) := CharClass.isWordStart_take separators (ls.line n) hi
  rcases lastWordStart_spec separators ((ls.line n).take c) with ⟨hstart, hgreatest⟩ | ⟨hnone, h⟩
  · have hlt := Nat.lt_of_lt_of_le (IsWordStart.lt_length hstart) (List.length_take_le ..)
    refine .word ⟨⟨hlt, (hiff _ hlt).1 hstart⟩, fun i hi => hgreatest ?_⟩
    exact (hiff i hi.1).2 hi.2
  · rw [h]
    exact .lineStart fun i hi => mt (hiff i hi).2 (hnone i)

theorem previousStart_previousWord (ls : Lines) (separators : List Char) (p : Position) :
    ls.PreviousStart separators (ls.clamp p) (ls.previousWord separators p) := by
  rw [previousWord]
  generalize ls.clamp p = q
  split
  · next hcolumn => exact .onLine hcolumn (lastStart_take ..)
  · next hcolumn =>
    split
    · next hline =>
      refine .above (by omega) hline ?_
      have hwhole : (ls.line (q.line - 1)).take (ls.lineLength (q.line - 1)) =
          ls.line (q.line - 1) := List.take_length
      have h := lastStart_take ls separators (q.line - 1) (ls.lineLength (q.line - 1))
      rwa [hwhole] at h
    · next hline =>
      refine .atStart (Position.ext ?_ ?_)
      · exact Nat.eq_zero_of_not_pos hline
      · exact Nat.eq_zero_of_not_pos hcolumn

/-! ### How far they lead -/

/-- The end of the text. -/
def textEnd (ls : Lines) : Position := ls.lineEnd ls.lastLine

theorem NextStart.clamp (h : ls.NextStart separators p q) (hline : p.line ≤ ls.lastLine) :
    ls.clamp q = q := by
  cases h with
  | @onLine i h =>
    have hlength : i ≤ ls.lineLength p.line := Nat.le_of_lt (IsWordStart.lt_length h.1.2)
    simp [Lines.clamp, hline, hlength]
  | below hnone h =>
    have hlength : (ls.line (p.line + 1)).findIdx (fun c => !isBlank c) ≤
        ls.lineLength (p.line + 1) := List.findIdx_le_length
    simp [Lines.clamp, Nat.succ_le_of_lt h, hlength]
  | atEnd => simp [Lines.clamp, lineEnd, hline]

theorem NextStart.le (h : ls.NextStart separators p q) (hcolumn : p.column ≤ ls.lineLength p.line) :
    p ≤ q := by
  cases h with
  | onLine h => exact .inr ⟨rfl, Nat.le_of_lt h.1.1⟩
  | below => exact .inl (Nat.lt_succ_self _)
  | atEnd => exact .inr ⟨rfl, hcolumn⟩

/-- The next word is further on, but at the end of the text. -/
theorem NextStart.lt_iff (h : ls.NextStart separators p q)
    (hcolumn : p.column ≤ ls.lineLength p.line) : p < q ↔ p ≠ ls.textEnd := by
  cases h with
  | @onLine i h =>
    obtain ⟨⟨hlt, hstart⟩, -⟩ := h
    refine iff_of_true (.inr ⟨rfl, hlt⟩) ?_
    rintro hp
    have hlength := IsWordStart.lt_length hstart
    have hpc : p.column = ls.lineLength p.line := by rw [hp]; rfl
    rw [lineLength] at hpc
    omega
  | below hnone h =>
    refine iff_of_true (.inl (Nat.lt_succ_self _)) ?_
    rintro hp
    have hline : p.line = ls.lastLine := by rw [hp]; rfl
    omega
  | atEnd hnone h =>
    have hlt : p < ls.lineEnd p.line ↔ p.column < ls.lineLength p.line := by
      simp [Position.lt_iff, lineEnd]
    have heq : p = ls.lineEnd p.line ↔ p.column = ls.lineLength p.line := by
      simp [Position.ext_iff, lineEnd]
    rw [textEnd, ← h, hlt, Ne, heq]
    omega

/-- The word before is further back, but at the start of the text. -/
theorem PreviousStart.lt_iff (h : ls.PreviousStart separators p q) : q < p ↔ p ≠ .origin := by
  cases h with
  | onLine hcolumn h =>
    have hne : p ≠ .origin := by rintro rfl; exact Nat.lt_irrefl 0 hcolumn
    refine iff_of_true (.inr ?_) hne
    cases h with
    | word h => exact ⟨rfl, h.1.1⟩
    | lineStart => exact ⟨rfl, hcolumn⟩
  | above hcolumn hline h =>
    have hne : p ≠ .origin := by rintro rfl; exact Nat.lt_irrefl 0 hline
    refine iff_of_true (.inl ?_) hne
    cases h <;> exact Nat.sub_lt hline Nat.one_pos
  | atStart h => simp [h, Position.lt_iff]

/-! ### From word to word -/

theorem clamp_nextWord (ls : Lines) (separators : List Char) (p : Position) :
    ls.clamp (ls.nextWord separators p) = ls.nextWord separators p :=
  (nextStart_nextWord ls separators p).clamp (line_clamp_le ls p)

theorem clamp_origin (ls : Lines) : ls.clamp .origin = .origin := by
  simp [clamp, Position.origin]

/-- Going on from the start of the text never turns back. -/
theorem iterate_nextWord_le (ls : Lines) (separators : List Char) {m n : Nat} (h : m ≤ n) :
    (ls.nextWord separators)^[m] .origin ≤ (ls.nextWord separators)^[n] .origin := by
  have hclamp (n : Nat) : ls.clamp ((ls.nextWord separators)^[n] .origin) =
      (ls.nextWord separators)^[n] .origin := by
    cases n with
    | zero => exact clamp_origin ls
    | succ n =>
      rw [Function.iterate_succ_apply']
      exact clamp_nextWord ..
  induction h with
  | refl => exact Position.le_refl _
  | @step n _ ih =>
    have hnext := (nextStart_nextWord ls separators _).le
      (column_clamp_le ls ((ls.nextWord separators)^[n] .origin))
    rw [hclamp n] at hnext
    rw [Function.iterate_succ_apply']
    exact Position.le_trans ih hnext

/-- Going on from a place of a line visits all later word starts of the line. -/
theorem exists_iterate_onLine {i : Nat} (hq : ls.clamp q = q) (hi : q.column ≤ i)
    (hword : IsWordStart separators (ls.line q.line) i) :
    ∃ n, (ls.nextWord separators)^[n] q = ⟨q.line, i⟩ := by
  -- The induction is on the distance to the word start.
  induction hdistance : i - q.column using Nat.strong_induction_on generalizing q with
  | _ distance ih =>
    rcases Nat.eq_or_lt_of_le hi with rfl | hlt
    · exact ⟨0, rfl⟩
    have hnext := nextStart_nextWord ls separators q
    have hrange := clamp_nextWord ls separators q
    rw [hq] at hnext
    generalize hq' : ls.nextWord separators q = q' at hnext hrange
    cases hnext with
    | @onLine j h =>
      obtain ⟨⟨hj, hstart⟩, hleast⟩ := h
      have hji : j ≤ i := hleast ⟨hlt, hword⟩
      obtain ⟨n, hn⟩ := ih (i - j) (by omega) hrange hji hword rfl
      exact ⟨n + 1, by rw [Function.iterate_succ_apply, hq', hn]⟩
    | below hnone | atEnd hnone => exact absurd hword (hnone i hlt)

/-- Going on from a place of a line leads to the next line, before all its word starts. -/
theorem exists_iterate_below (separators : List Char) (hq : ls.clamp q = q)
    (hline : q.line < ls.lastLine) :
    ∃ n, (ls.nextWord separators)^[n] q =
      ⟨q.line + 1, (ls.line (q.line + 1)).findIdx fun c => !isBlank c⟩ := by
  -- The induction is on the rest of the line.
  induction hrest : ls.lineLength q.line - q.column using Nat.strong_induction_on
    generalizing q with
  | _ rest ih =>
    have hnext := nextStart_nextWord ls separators q
    have hrange := clamp_nextWord ls separators q
    rw [hq] at hnext
    generalize hq' : ls.nextWord separators q = q' at hnext hrange
    cases hnext with
    | @onLine j h =>
      obtain ⟨⟨hj, hstart⟩, -⟩ := h
      have hlength : j < ls.lineLength q.line := IsWordStart.lt_length hstart
      obtain ⟨n, hn⟩ := ih (ls.lineLength q.line - j) (by omega) hrange hline rfl
      exact ⟨n + 1, by rw [Function.iterate_succ_apply, hq', hn]⟩
    | below => exact ⟨1, hq'⟩
    | atEnd hnone h => omega

theorem not_isWordStart_of_lt_findIdx {l : List Char} {i : Nat}
    (h : i < l.findIdx fun c => !isBlank c) : ¬IsWordStart separators l i := by
  rintro ⟨c, hc, hblank, -⟩
  have hlt : i < l.length := Nat.lt_of_lt_of_le h List.findIdx_le_length
  have hfirst := List.not_of_lt_findIdx h
  rw [List.getElem?_eq_getElem hlt] at hc
  obtain rfl := Option.some.inj hc
  exact hblank (CharClass.of_eq_blank_iff.2 (by simpa using hfirst))

/-- Going on from the start of the text leads to each line, before all its word starts. -/
theorem exists_iterate_line (separators : List Char) {n : Nat} (hn : n ≤ ls.lastLine) :
    ∃ k q, (ls.nextWord separators)^[k] .origin = q ∧ q.line = n ∧ ls.clamp q = q ∧
      ∀ i < q.column, ¬IsWordStart separators (ls.line n) i := by
  induction n with
  | zero =>
    exact ⟨0, .origin, rfl, rfl, clamp_origin ls, fun i hi => absurd hi (Nat.not_lt_zero i)⟩
  | succ n ih =>
    obtain ⟨k, q, hk, rfl, hq, -⟩ := ih (by omega)
    obtain ⟨m, hm⟩ := exists_iterate_below separators hq hn
    refine ⟨m + k, _, by rw [Function.iterate_add_apply, hk, hm], rfl, ?_,
      fun i hi => not_isWordStart_of_lt_findIdx hi⟩
    have hlength : ((ls.line (q.line + 1)).findIdx fun c => !isBlank c) ≤
        (ls.line (q.line + 1)).length := List.findIdx_le_length
    simp [clamp, hn, lineLength, hlength]

/-- **Going on from the start of the text visits every word start.** -/
theorem exists_iterate_nextWord (h : IsWordStart separators (ls.line p.line) p.column) :
    ∃ n, (ls.nextWord separators)^[n] .origin = p := by
  have hline : p.line ≤ ls.lastLine := by
    by_contra hlt
    have hlength := h.lt_length
    rw [lastLine] at hlt
    simp [line, Nat.le_of_not_lt (show ¬p.line < ls.length by omega)] at hlength
  obtain ⟨k, q, hk, hqline, hq, hnone⟩ := exists_iterate_line separators hline
  have hcolumn : q.column ≤ p.column := by
    by_contra hlt
    exact hnone p.column (Nat.lt_of_not_le hlt) h
  rw [← hqline] at h
  obtain ⟨m, hm⟩ := exists_iterate_onLine hq hcolumn h
  exact ⟨m + k, by rw [Function.iterate_add_apply, hk, hm, hqline]⟩

end Lines

namespace Editor

open CharClass (IsWordStart)

variable {e : Editor}

/-- The key `w`, typed again and again, goes on from word to word. -/
theorem cursor_typeKeys_nextWord (h : e.Waiting) (hfree : e.config.hostCommands? 'w' = none)
    (n : Nat) : (e.typeKeys (List.replicate n 'w')).buffer.cursor =
      (e.lines.nextWord e.separators)^[n] e.buffer.cursor := by
  let At := fun (p : Position) (v : View) => v.document.lines = e.lines ∧ v.document.cursor = p ∧
    v.config = e.config ∧ v.phase = .normal .initial
  have hw : e.config.operator? 'w' = some (Travel.plain .nextWord).operator := by
    rw [Config.operator?, hfree]
    rfl
  have hroams : Roams e.lines e.config .normal At := roams_normal e.lines e.config
  have hall (n : Nat) {x : Editor} {p : Position} (hp : e.lines.InRange p) (hx : At p x.view) :
      At ((e.lines.nextWord e.separators)^[n] p) ((List.replicate n 'w').foldl typeKey x).view := by
    induction n generalizing x p with
    | zero => exact hx
    | succ n ih =>
      have hphase : x.phase = .normal .initial := hx.2.2.2
      have hconfig : x.config = e.config := hx.2.2.1
      have hspells : Command.Spells x.config ['w'] { operator := 'w' } :=
        Travel.spells_movement (t := .plain .nextWord) (by rwa [hconfig]) (.inl rfl) ⟨rfl, rfl⟩
      have hkey : x.typeKey 'w' = x.dispatch { operator := 'w' } :=
        foldl_typeKey_of_spells hphase hspells
      have hmoved := at_dispatch_travel (t := .plain .nextWord) hroams
        (c := { operator := 'w' }) hp hw rfl rfl hx
      rw [← hkey] at hmoved
      exact ih ((Motion.directed .nextWord e.lines e.separators).1 p hp) hmoved
  rw [typeKeys, if_pos h.enabled]
  exact (hall n h.wellFormed.2.2 ⟨rfl, rfl, rfl, h.phase⟩).2.1

/-- **Motions over words.**  The next and the previous word are where the word starts of the lines
say.  Going on to the next word from the start of the text, as the key `w` does, visits every word
start, and in their order.  Both motions lead on from everywhere but one end of the text. -/
theorem word_motions (e : Editor) :
    let next := e.lines.nextWord e.separators
    let previous := e.lines.previousWord e.separators
    (∀ p, e.lines.NextStart e.separators (e.lines.clamp p) (next p) ∧
      e.lines.PreviousStart e.separators (e.lines.clamp p) (previous p)) ∧
    (∀ p, IsWordStart e.separators (e.lines.line p.line) p.column →
      ∃ n, next^[n] .origin = p) ∧
    (∀ m n, m ≤ n → next^[m] .origin ≤ next^[n] .origin) ∧
    (e.Waiting → e.config.hostCommands? 'w' = none → e.buffer.cursor = .origin →
      ∀ n, (e.typeKeys (List.replicate n 'w')).buffer.cursor = next^[n] .origin) ∧
    (∀ p, e.lines.clamp p < next p ↔ e.lines.clamp p ≠ e.lines.textEnd) ∧
    ∀ p, previous p < e.lines.clamp p ↔ e.lines.clamp p ≠ .origin := by
  intro next previous
  have hnext (p : Position) := Lines.nextStart_nextWord e.lines e.separators p
  have hprevious (p : Position) := Lines.previousStart_previousWord e.lines e.separators p
  refine ⟨fun p => ⟨hnext p, hprevious p⟩, fun p h => Lines.exists_iterate_nextWord h,
    fun m n h => Lines.iterate_nextWord_le e.lines e.separators h, ?_, ?_, ?_⟩
  · intro hwaiting hfree hcursor n
    rw [cursor_typeKeys_nextWord hwaiting hfree, hcursor]
  · exact fun p => (hnext p).lt_iff (Lines.column_clamp_le e.lines p)
  · exact fun p => (hprevious p).lt_iff

/-- The last word stands below a blank line, and `w` comes to it. -/
theorem word_motions_blankLine :
    let e := (Session.start ['a', ',', ' ', 'b', '\n', ' ', '\n', 'c'] 5 {} {} (.memory none)
      none).toEditor
    IsWordStart e.separators (e.lines.line 2) 0 ∧ e.Waiting ∧
      e.config.hostCommands? 'w' = none ∧ e.buffer.cursor = .origin ∧
      (e.typeKeys ['w', 'w']).buffer.cursor ≤ (e.typeKeys ['w', 'w', 'w']).buffer.cursor ∧
      ∃ n, (e.typeKeys (List.replicate n 'w')).buffer.cursor = ⟨2, 0⟩ := by
  intro e
  have hword : IsWordStart e.separators (e.lines.line 2) 0 :=
    ⟨'c', by decide +kernel, by decide +kernel, .inl rfl⟩
  have hwaiting : e.Waiting := ⟨Document.wellFormed_ofText _, rfl, rfl⟩
  have hfree : e.config.hostCommands? 'w' = none := by decide +kernel
  have hcursor : e.buffer.cursor = .origin := rfl
  clear_value e
  obtain ⟨-, hvisits, horder, htyped, -⟩ := word_motions e
  have htyped := htyped hwaiting hfree hcursor
  obtain ⟨n, hn⟩ := hvisits ⟨2, 0⟩ hword
  have htwo := horder 2 3 (by decide)
  rw [← htyped 2, ← htyped 3] at htwo
  exact ⟨hword, hwaiting, hfree, hcursor, htwo, n, (htyped n).trans hn⟩

end Editor

end ModalEditor
