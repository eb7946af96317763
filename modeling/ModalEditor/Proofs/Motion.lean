import Mathlib.Logic.Function.Iterate
import Mathlib.Order.Bounds.Basic
import ModalEditor.Command.Plan
import ModalEditor.Proofs.Offset

/-!
# Counted motions

The searches along a line find the nearest character (`Lines.indexFrom?_eq_some_iff`,
`Lines.lastIndexBefore?_eq_some_iff`).  The motions and the searches stay in the text, and each of
them leads in one direction only (`Motion.directed`, `Search.directed`).  A counted motion therefore
covers just the stretch between the place where it starts and the place to which its last step leads
(`MotionKey.reach?_eq`).
-/

namespace ModalEditor

namespace Lines

variable {ls : Lines} {separators : List Char} {p : Position}

/-- `f` leads from places of the text to places of the text, either never backward or never
forward. -/
def Directed (ls : Lines) (f : Position → Position) : Prop :=
  (∀ p, ls.InRange p → ls.InRange (f p)) ∧
    ((∀ p, ls.InRange p → p ≤ f p) ∨ ∀ p, ls.InRange p → f p ≤ p)

theorem directed_of_le {f : Position → Position}
    (h : ∀ p, ls.InRange p → ls.InRange (f p) ∧ p ≤ f p) : ls.Directed f :=
  ⟨fun p hp => (h p hp).1, .inl fun p hp => (h p hp).2⟩

theorem directed_of_ge {f : Position → Position}
    (h : ∀ p, ls.InRange p → ls.InRange (f p) ∧ f p ≤ p) : ls.Directed f :=
  ⟨fun p hp => (h p hp).1, .inr fun p hp => (h p hp).2⟩

/-! ### Up and down -/

theorem line_le_lastLine (hp : ls.InRange p) : p.line ≤ ls.lastLine := by
  have := hp.1; rw [lastLine]; omega

theorem inRange_of_le_lastLine (hp : ls.InRange p) {n column : Nat} (hn : n ≤ ls.lastLine)
    (hcolumn : column ≤ ls.lineLength n) : ls.InRange ⟨n, column⟩ := by
  have hpos := hp.1
  rw [lastLine] at hn
  exact ⟨show n < ls.length by omega, hcolumn⟩

theorem inRange_lineEnd (hp : ls.InRange p) : ls.InRange (ls.lineEnd p.line) :=
  ⟨hp.1, Nat.le_refl _⟩

theorem directed_down (count : Nat) : ls.Directed (ls.down · count) := by
  refine directed_of_le fun p hp => ?_
  have hline := line_le_lastLine hp
  refine ⟨inRange_of_le_lastLine hp (Nat.min_le_right ..) (Nat.min_le_right ..), ?_⟩
  simp only [down, Position.le_iff]
  by_cases h : min (p.line + count) ls.lastLine = p.line
  · right
    rw [h, Nat.min_eq_left hp.2]
    exact ⟨rfl, Nat.le_refl _⟩
  · left; omega

theorem directed_up (count : Nat) : ls.Directed (ls.up · count) := by
  refine directed_of_ge fun p hp => ?_
  have hline := line_le_lastLine hp
  refine ⟨inRange_of_le_lastLine hp ?_ (Nat.min_le_right ..), ?_⟩
  · omega
  simp only [up, Position.le_iff]
  by_cases h : min p.line ls.lastLine - count = p.line
  · right; exact ⟨h, Nat.min_le_left ..⟩
  · left; omega

/-! ### Words -/

theorem directed_nextWord : ls.Directed (ls.nextWord separators) := by
  refine directed_of_le fun p hp => ?_
  have hline := line_le_lastLine hp
  rw [nextWord, clamp_of_inRange hp]
  split
  · next h => exact ⟨⟨hp.1, Nat.le_of_lt h⟩, .inr ⟨rfl, Nat.le_add_right ..⟩⟩
  · split
    · next h =>
      have hblank := (List.takeWhile_prefix isBlank (l := ls.line (p.line + 1))).length_le
      exact ⟨inRange_of_le_lastLine hp h hblank, .inl (Nat.lt_succ_self _)⟩
    · exact ⟨inRange_lineEnd hp, .inr ⟨rfl, hp.2⟩⟩

theorem lastWordStart_le (separators l : List Char) :
    lastWordStart separators l ≤ l.length := by
  rw [lastWordStart]
  have hblank := (List.dropWhile_suffix isBlank (l := l.reverse)).length_le
  split
  · exact Nat.zero_le _
  · next c rest h =>
    have hword := (List.dropWhile_suffix
      (fun d => decide (CharClass.of separators d = CharClass.of separators c))
      (l := rest)).length_le
    simp only [h, List.length_cons, List.length_reverse] at hblank
    omega

theorem directed_previousWord : ls.Directed (ls.previousWord separators) := by
  refine directed_of_ge fun p hp => ?_
  have hline := line_le_lastLine hp
  rw [previousWord, clamp_of_inRange hp]
  split
  · have hword := lastWordStart_le separators ((ls.line p.line).take p.column)
    have hcolumn := Nat.le_trans hword (List.length_take_le ..)
    exact ⟨⟨hp.1, Nat.le_trans hcolumn hp.2⟩, .inr ⟨rfl, hcolumn⟩⟩
  · split
    · next h =>
      exact ⟨inRange_of_le_lastLine hp (by omega) (lastWordStart_le ..), .inl (by dsimp only; omega)⟩
    · exact ⟨hp, Position.le_refl p⟩

/-! ### Searches -/

section

variable {l : List Char} {c : Char} {n i j : Nat}

theorem findIdx?_eq_some_iff_isLeast :
    l.findIdx? (· == c) = some i ↔ IsLeast {i | l[i]? = some c} i := by
  rw [List.findIdx?_eq_some_iff_getElem]
  constructor
  · rintro ⟨hi, hc, hfirst⟩
    refine ⟨List.getElem?_eq_some_iff.2 ⟨hi, beq_iff_eq.1 hc⟩, fun m hm => ?_⟩
    by_contra hlt
    obtain ⟨hm, hmc⟩ := List.getElem?_eq_some_iff.1 hm
    exact hfirst m (Nat.lt_of_not_le hlt) (beq_iff_eq.2 hmc)
  · rintro ⟨hc, hleast⟩
    obtain ⟨hi, hc⟩ := List.getElem?_eq_some_iff.1 hc
    refine ⟨hi, beq_iff_eq.2 hc, fun m hm hmc => ?_⟩
    have hle := hleast (List.getElem?_eq_some_iff.2 ⟨Nat.lt_trans hm hi, beq_iff_eq.1 hmc⟩)
    exact Nat.not_le_of_lt hm hle

/-- The search forward finds the least index. -/
theorem indexFrom?_eq_some_iff :
    indexFrom? l c n = some j ↔ IsLeast {j | n ≤ j ∧ l[j]? = some c} j := by
  simp only [indexFrom?, Option.map_eq_some_iff, findIdx?_eq_some_iff_isLeast, List.getElem?_drop]
  constructor
  · rintro ⟨m, ⟨hm, hleast⟩, rfl⟩
    refine ⟨⟨Nat.le_add_right n m, hm⟩, fun k hk => ?_⟩
    obtain ⟨d, rfl⟩ := Nat.exists_eq_add_of_le hk.1
    exact Nat.add_le_add_left (hleast hk.2) n
  · rintro ⟨⟨hnj, hj⟩, hleast⟩
    obtain ⟨m, rfl⟩ := Nat.exists_eq_add_of_le hnj
    refine ⟨m, ⟨hj, fun d hd => ?_⟩, rfl⟩
    exact Nat.le_of_add_le_add_left (hleast ⟨Nat.le_add_right n d, hd⟩)

theorem getElem?_take_eq_some_iff :
    (l.take n)[i]? = some c ↔ i < n ∧ l[i]? = some c := by
  rw [List.getElem?_take]
  split
  · next h => rw [and_iff_right h]
  · next h => simp [h]

/-- The search backward finds the greatest index. -/
theorem lastIndexBefore?_eq_some_iff :
    lastIndexBefore? l c n = some i ↔ IsGreatest {i | i < n ∧ l[i]? = some c} i := by
  simp only [lastIndexBefore?, Option.map_eq_some_iff, findIdx?_eq_some_iff_isLeast,
    ← getElem?_take_eq_some_iff]
  generalize l.take n = front
  -- Indices count from the other end.
  have hflip (m : Nat) (hm : m < front.length) :
      front.reverse[front.length - 1 - m]? = front[m]? := by
    rw [List.getElem?_reverse (by omega), show front.length - 1 - (front.length - 1 - m) = m by omega]
  have hlt {m : Nat} (hm : front[m]? = some c) : m < front.length :=
    (List.getElem?_eq_some_iff.1 hm).1
  constructor
  · rintro ⟨m, ⟨hm, hleast⟩, rfl⟩
    have hlength : m < front.length := by
      simpa using (List.getElem?_eq_some_iff.1 hm).1
    refine ⟨(List.getElem?_reverse hlength).symm.trans hm, fun k hk => ?_⟩
    have hle := hleast ((hflip k (hlt hk)).trans hk)
    have hk := hlt hk
    omega
  · rintro ⟨hi, hgreatest⟩
    have hlength := hlt hi
    refine ⟨front.length - 1 - i, ⟨(hflip i hlength).trans hi, fun m hm => ?_⟩, by omega⟩
    have hmlength : m < front.length := by
      simpa using (List.getElem?_eq_some_iff.1 hm).1
    have hle := hgreatest ((List.getElem?_reverse hmlength).symm.trans hm)
    omega

end

theorem directed_findForward (c : Char) : ls.Directed (ls.findForward · c) := by
  refine directed_of_le fun p hp => ?_
  simp only [findForward, clamp_of_inRange hp]
  split
  · next i h =>
    obtain ⟨hi, hc⟩ := (indexFrom?_eq_some_iff.1 h).1
    obtain ⟨hlength, -⟩ := List.getElem?_eq_some_iff.1 hc
    exact ⟨⟨hp.1, Nat.le_of_lt hlength⟩, .inr ⟨rfl, Nat.le_of_succ_le hi⟩⟩
  · exact ⟨hp, Position.le_refl p⟩

theorem directed_findBackward (c : Char) : ls.Directed (ls.findBackward · c) := by
  refine directed_of_ge fun p hp => ?_
  simp only [findBackward, clamp_of_inRange hp]
  split
  · next i h =>
    have hi : i ≤ p.column := Nat.le_of_lt (lastIndexBefore?_eq_some_iff.1 h).1.1
    exact ⟨⟨hp.1, Nat.le_trans hi hp.2⟩, .inr ⟨rfl, hi⟩⟩
  · exact ⟨hp, Position.le_refl p⟩

end Lines

/-- Every motion is directed. -/
theorem Motion.directed (m : Motion) (ls : Lines) (separators : List Char) :
    ls.Directed (m.target ls separators) := by
  cases m with
  | left =>
    refine Lines.directed_of_ge fun p hp => ?_
    rw [target, Lines.clamp_of_inRange hp]
    exact ⟨⟨hp.1, Nat.le_trans (Nat.sub_le ..) hp.2⟩, .inr ⟨rfl, Nat.sub_le ..⟩⟩
  | right =>
    refine Lines.directed_of_le fun p hp => ?_
    rw [target, Lines.clamp_of_inRange hp]
    exact ⟨⟨hp.1, Nat.min_le_right ..⟩, .inr ⟨rfl, Nat.le_min.2 ⟨Nat.le_succ _, hp.2⟩⟩⟩
  | up => exact Lines.directed_up 1
  | down => exact Lines.directed_down 1
  | pageUp => exact Lines.directed_up pageLines
  | pageDown => exact Lines.directed_down pageLines
  | lineStart =>
    refine Lines.directed_of_ge fun p hp => ?_
    rw [target, Lines.clamp_of_inRange hp]
    exact ⟨⟨hp.1, Nat.zero_le _⟩, .inr ⟨rfl, Nat.zero_le _⟩⟩
  | lineEnd =>
    refine Lines.directed_of_le fun p hp => ?_
    rw [target, Lines.clamp_of_inRange hp]
    exact ⟨Lines.inRange_lineEnd hp, .inr ⟨rfl, hp.2⟩⟩
  | nextWord => exact Lines.directed_nextWord
  | previousWord => exact Lines.directed_previousWord

/-- Every search is directed. -/
theorem Search.directed (s : Search) (ls : Lines) (c : Char) : ls.Directed (s.target ls · c) := by
  cases s with
  | forward => exact Lines.directed_findForward c
  | backward => exact Lines.directed_findBackward c

namespace Span

theorem farEnd_between (p q : Position) : (between p q).farEnd p = q := by
  rw [between]
  split
  · rw [farEnd, if_pos rfl]
  · next h =>
    have hne : q ≠ p := by rintro rfl; exact h (Position.le_refl _)
    rw [farEnd, if_neg hne]

theorem between_of_le {p q : Position} (h : p ≤ q) : between p q = ⟨p, q, h⟩ := dif_pos h

theorem between_of_ge {p q : Position} (h : q ≤ p) : between p q = ⟨q, p, h⟩ := by
  by_cases hpq : p ≤ q
  · obtain rfl := Position.le_antisymm hpq h
    exact between_of_le hpq
  · exact dif_neg hpq

/-- Two stretches that go the same way, one after the other, cover the stretch from the start of
the first to the end of the second. -/
theorem cover_between {p q r : Position} (h : p ≤ q ∧ q ≤ r ∨ q ≤ p ∧ r ≤ q) :
    (between p q).cover (between q r) = between p r := by
  rcases h with ⟨hpq, hqr⟩ | ⟨hqp, hrq⟩
  · rw [between_of_le hpq, between_of_le hqr, cover, if_pos hpq, if_pos hqr]
  · have hstart : (if q ≤ r then q else r) = r := by
      split
      · next h => exact Position.le_antisymm h hrq
      · rfl
    have hstop : (if p ≤ q then q else p) = p := by
      split
      · next h => exact Position.le_antisymm hqp h
      · rfl
    have hrp := Position.le_trans hrq hqp
    rw [between_of_ge hqp, between_of_ge hrq, cover, hstart, hstop, between_of_le hrp,
      between_of_ge hrp]

end Span

namespace MotionKey

variable {m : MotionKey} {ls : Lines} {separators : List Char} {argument : Option Char}
variable {f : Position → Position} {p₀ p : Position}

/-- With `between p₀ (f p)` covered up to a step from `p`, `n` steps more cover all up to where they
lead. -/
theorem reachFrom_eq (hm : ∀ p, m.span? ls separators p argument = some (.between p (f p)))
    (hf : ls.Directed f) (hp : ls.InRange p) (n : Nat)
    (h : (∀ q, ls.InRange q → q ≤ f q) ∧ p₀ ≤ p ∨ (∀ q, ls.InRange q → f q ≤ q) ∧ p ≤ p₀) :
    m.reachFrom ls separators argument n p (.between p (f p)) (.between p₀ (f p)) =
      some (.between p₀ (f^[n + 1] p)) := by
  induction n generalizing p with
  | zero => rfl
  | succ n ih =>
    rw [reachFrom, Span.farEnd_between]
    by_cases hq : f p = p
    · -- A step that leads nowhere is the last one, and so would be every further step.
      rw [if_pos hq, Function.iterate_fixed hq, hq]
    · -- The next step goes on in the same direction from where this one leads.
      have hq' := hf.1 p hp
      have hnext : (∀ q, ls.InRange q → q ≤ f q) ∧ p₀ ≤ f p ∨
          (∀ q, ls.InRange q → f q ≤ q) ∧ f p ≤ p₀ := by
        rcases h with ⟨hle, h⟩ | ⟨hge, h⟩
        · exact .inl ⟨hle, Position.le_trans h (hle p hp)⟩
        · exact .inr ⟨hge, Position.le_trans (hge p hp) h⟩
      have hcover : (Span.between p₀ (f p)).cover (.between (f p) (f (f p))) =
          .between p₀ (f (f p)) := by
        rcases hnext with ⟨hle, h⟩ | ⟨hge, h⟩
        · exact Span.cover_between (.inl ⟨h, hle _ hq'⟩)
        · exact Span.cover_between (.inr ⟨h, hge _ hq'⟩)
      rw [if_neg hq, hm]
      dsimp only
      rw [hcover, ih hq' hnext]
      rfl

/-- **A counted motion covers the stretch to where it leads.** -/
theorem reach?_eq (hm : ∀ p, m.span? ls separators p argument = some (.between p (f p)))
    (hf : ls.Directed f) (hp : ls.InRange p) {n : Nat} (hn : 1 ≤ n) :
    m.reach? ls separators argument n p = some (.between p (f^[n] p)) := by
  obtain ⟨n, rfl⟩ : ∃ k, n = k + 1 := ⟨n - 1, by omega⟩
  rw [reach?, hm]
  refine reachFrom_eq hm hf hp n ?_
  rcases hf.2 with hle | hge
  · exact .inl ⟨hle, Position.le_refl p⟩
  · exact .inr ⟨hge, Position.le_refl p⟩

end MotionKey

end ModalEditor
