import Mathlib.Data.Prod.Basic
import ModalEditor.Proofs.OperatorRange
import ModalEditor.Proofs.Sides
import ModalEditor.Proofs.Typing
import ModalEditor.Proofs.VisualSpelling

/-!
# Counts of a deletion multiply

A deletion has two counts: that of the motion, which is chained in the text as it stands, and that
of the operator, which deletes and plans the motion again in the text that is left.

For a motion that looks to one side the two come to the same.  Deleting up to where it leads bites
off a piece of the text on its side (`Travel.Bites`); the other side stays, and the motion would not
look at it anyway.  So the bites that the two counts ask for add up to as many as their product
(`Editor.bitten_foldl_typeKey`).
-/

namespace ModalEditor

/-! ### Deleting a stretch next to the cursor -/

namespace Document

variable {d : Document} {p q : Position}

/-- The cursor stands between the text before it and the text after it. -/
theorem WellFormed.splits_cursor (h : d.WellFormed) :
    d.Splits (d.lines.before d.cursor) (d.lines.after d.cursor) := by
  rw [Lines.before_eq_take h.cursor, Lines.after_eq_drop h.cursor]
  exact h.splits

theorem Splits.after {x y : List Char} (h : d.Splits x y) : d.lines.after d.cursor = y := by
  have htext := h.wellFormed.splits_cursor.text
  rw [h.before, h.text] at htext
  exact (List.append_cancel_left htext).symm

/-- Erasing joins what is before the stretch to what is after it, and there the cursor is placed. -/
theorem splits_erase (h : d.WellFormed) (hp : d.lines.InRange p) (hq : d.lines.InRange q)
    (hle : p ≤ q) : ((d.erase ⟨p, q, hle⟩).select (.caret p)).Splits
      (d.lines.before p) (d.lines.after q) := by
  have hflat := flat_erase h ⟨p, q, hle⟩
  rw [Lines.clamp_of_inRange hp, Lines.clamp_of_inRange hq] at hflat
  have hoffset := (Lines.le_iff_offset_le h.1 hp hq).1 hle
  have htext : (d.erase ⟨p, q, hle⟩).text = d.lines.before p ++ d.lines.after q := by
    rw [Lines.before_eq_take hp, Lines.after_eq_drop hq]
    exact (congrArg FlatDocument.text hflat).trans (FlatDocument.text_erase hoffset)
  have hselect := Splits.select (wellFormed_erase h _).1 htext
  rwa [Lines.advance_before h.1 hp] at hselect

end Document

namespace View

variable {w : View} {p q : Position}

theorem config_delete (w : View) (s : Span) : (w.delete s).config = w.config := by
  rw [delete]
  split <;> rfl

theorem phase_delete (w : View) (s : Span) : (w.delete s).phase = w.phase := by
  rw [delete]
  split <;> rfl

/-- Deleting a stretch at whose start or end the cursor stands. -/
theorem splits_delete (h : w.document.WellFormed) (hp : w.document.lines.InRange p)
    (hq : w.document.lines.InRange q) (hle : p ≤ q)
    (hcursor : w.document.cursor = p ∨ w.document.cursor = q) :
    (w.delete ⟨p, q, hle⟩).document.Splits
      (w.document.lines.before p) (w.document.lines.after q) := by
  rw [delete]
  split
  · next hempty =>
    -- Nothing is deleted, and both ends are at the cursor.
    obtain rfl : p = q := by simpa [Span.isEmpty] using hempty
    obtain rfl : w.document.cursor = p := hcursor.elim id id
    exact h.splits_cursor
  · exact Document.splits_erase h hp hq hle

end View

/-! ### Biting off pieces -/

/-- The text before and the text after the cursor. -/
abbrev Parts := List Char × List Char

namespace Travel

variable {t : Travel} {separators : List Char}

/-- Each step of the motion, when all up to where it leads is deleted, takes the bite `bite` out of
the text on the two sides of the cursor. -/
def Bites (t : Travel) (separators : List Char) (bite : Parts → Parts) : Prop :=
  ∀ (w : View) (parts : Parts), w.config.wordSeparators.toList = separators →
    w.document.Splits parts.1 parts.2 → ∀ n,
      (w.delete (.between w.document.cursor ((w.step t)^[n] w.document.cursor))).document.Splits
        (bite^[n] parts).1 (bite^[n] parts).2

/-- A motion that looks ahead bites off the text after the cursor. -/
theorem LooksAhead.bites (h : t.LooksAhead) (separators : List Char) :
    t.Bites separators (Prod.map id (t.ahead separators)) := by
  rintro w ⟨x, y⟩ rfl hsplits n
  have hwf := hsplits.wellFormed
  obtain ⟨hrange, hle, hafter⟩ := h.after_iterate w.config.wordSeparators.toList hwf.1
    hwf.cursor n
  have hdelete := View.splits_delete hwf hwf.cursor hrange hle (.inl rfl)
  rw [hafter, hsplits.before, hsplits.after] at hdelete
  rw [Prod.map_iterate, Function.iterate_id]
  rw [View.step, Span.between_of_le hle]
  exact hdelete

/-- A motion that looks back bites off the text before the cursor. -/
theorem LooksBack.bites (h : t.LooksBack) (separators : List Char) :
    t.Bites separators (Prod.map (t.behind separators) id) := by
  rintro w ⟨x, y⟩ rfl hsplits n
  have hwf := hsplits.wellFormed
  obtain ⟨hrange, hle, hbefore⟩ := h.before_iterate w.config.wordSeparators.toList hwf.1
    hwf.cursor n
  have hdelete := View.splits_delete hwf hrange hwf.cursor hle (.inr rfl)
  rw [hbefore, hsplits.before, hsplits.after] at hdelete
  rw [Prod.map_iterate, Function.iterate_id]
  rw [View.step, Span.between_of_ge hle]
  exact hdelete

theorem exists_bites (h : t.LooksAhead ∨ t.LooksBack) (separators : List Char) :
    ∃ bite, t.Bites separators bite := by
  rcases h with h | h
  · exact ⟨_, h.bites separators⟩
  · exact ⟨_, h.bites separators⟩

end Travel

/-! ### Deleting again and again -/

/-- In normal mode and with these settings, the cursor stands between the two parts of the text. -/
structure View.Bitten (config : Config) (parts : Parts) (w : View) : Prop where
  splits : w.document.Splits parts.1 parts.2
  config_eq : w.config = config
  phase : w.phase = .normal .initial

/-- The operator that deletes. -/
def Operator.delete : Operator := ⟨.range, .edit, .delete⟩

namespace Editor

variable {config : Config} {t : Travel} {bite : Parts → Parts} {parts : Parts} {y e : Editor}
variable {c : Command} {k op : Char} {ds es : Digits}

/-- The plan of a deletion. -/
theorem plan?_delete (hy : y.view.Bitten config parts)
    (hop : config.operator? c.operator = some Operator.delete) (hvirtual : c.isVirtual = false)
    (ht : t.Spells k) (hk : k ≠ c.operator) (hmotion : c.motion = some k)
    (hargument : c.argument = t.argument) :
    y.plan? c = some ⟨Operator.delete, max c.count 1,
      .ofSpan (.between y.buffer.cursor ((y.view.step t)^[max c.motionCount 1] y.buffer.cursor)),
      c.argument⟩ := by
  have hphase : y.phase = .normal .initial := hy.phase
  have hconfig : y.config = config := hy.config_eq
  have hmode : y.mode ≠ .visual := by simp [mode, hphase, Phase.mode]
  have htarget := target?_travel (c := c) hphase hy.splits.wellFormed.cursor ht hk hmotion hargument
  have hplan := plan?_of_range (c := c) (by rwa [hconfig]) hvirtual htarget
  rwa [if_neg hmode] at hplan

/-- One run of a deletion takes as many bites as the count of the motion says. -/
theorem bitten_runPlan (replay : Editor → Editor) (count n : Nat) (argument : Option Char)
    (hbites : t.Bites config.wordSeparators.toList bite) (hy : y.view.Bitten config parts) :
    ∃ z : Editor, runPlan replay ⟨Operator.delete, count,
        .ofSpan (.between y.buffer.cursor ((y.view.step t)^[n] y.buffer.cursor)), argument⟩ y =
      (z, none) ∧ z.view.Bitten config (bite^[n] parts) := by
  let s := Span.between y.buffer.cursor ((y.view.step t)^[n] y.buffer.cursor)
  let z := (y.delete (.ofSpan s)).leaveVisual
  have hview : z.view = y.view.delete s := by
    have hphase : (y.view.delete s).phase.mode ≠ .visual := by
      rw [View.phase_delete, hy.phase]
      decide
    rw [view_leaveVisual, view_delete, View.leaveVisual_of_ne hphase]
  refine ⟨z, runPlan_edit rfl, ?_⟩
  rw [hview]
  exact ⟨hbites y.view parts (by rw [hy.config_eq]) hy.splits n,
    (View.config_delete ..).trans hy.config_eq, (View.phase_delete ..).trans hy.phase⟩

/-- All runs together take as many bites as the product of the counts says. -/
theorem bitten_repeatPlan {replay : Editor → Editor}
    (hbites : t.Bites config.wordSeparators.toList bite)
    (hop : config.operator? c.operator = some Operator.delete) (hvirtual : c.isVirtual = false)
    (ht : t.Spells k) (hk : k ≠ c.operator) (hmotion : c.motion = some k)
    (hargument : c.argument = t.argument) (n : Nat) {plan : Plan} (hplan : y.plan? c = some plan)
    (hy : y.view.Bitten config parts) :
    (repeatPlan replay c .normal n plan y).view.Bitten config
      (bite^[max c.motionCount 1 * n] parts) := by
  induction n generalizing y plan parts with
  | zero => exact hy
  | succ n ih =>
    rw [plan?_delete hy hop hvirtual ht hk hmotion hargument] at hplan
    cases hplan
    obtain ⟨z, hrun, hz⟩ := bitten_runPlan replay (max c.count 1) (max c.motionCount 1) c.argument
      hbites hy
    have hmode : z.mode = .normal := congrArg Phase.mode hz.phase
    have hagain := plan?_delete hz hop hvirtual ht hk hmotion hargument
    rw [repeatPlan, hrun]
    simp only [hmode, if_true, hagain]
    rw [Nat.mul_succ, Function.iterate_add_apply]
    exact ih hagain hz

/-- **Typing a deletion with two counts** takes as many bites as their product says. -/
theorem bitten_foldl_typeKey (hbites : t.Bites e.config.wordSeparators.toList bite)
    (hop : e.config.operator? op = some Operator.delete) (hds : ds.IsCount) (hes : es.IsCount)
    (ht : t.Spells k) (he : e.view.Bitten e.config parts) :
    ((ds ++ op :: (es ++ k :: t.argument.toList)).foldl typeKey e).view.Bitten e.config
      (bite^[max es.amount 1 * max ds.amount 1] parts) := by
  have hopens : Command.Opens e.config .range [] op := Command.opens_range hop rfl
  have hdigit : op.isDigit = false := (Config.motionKey_of_range hopens.arity).1
  let bare : Command :=
    { operator := op, motion := some k, motionCount := es.amount, argument := t.argument }
  let c : Command := { bare with count := ds.amount }
  have hbare : Command.Spells e.config (bare.operator :: (es ++ k :: t.argument.toList)) bare :=
    Travel.spells_range hopens hes ht
  have hspells : Command.Spells e.config (ds ++ op :: (es ++ k :: t.argument.toList)) c :=
    (hbare.with_count hdigit).2 ds hds
  have hprepare : (e.prepare c).view.Bitten e.config parts := by rwa [view_prepare]
  have hmode : (e.prepare c).mode = .normal := congrArg Phase.mode hprepare.phase
  have hplan := plan?_delete (c := c) hprepare hop rfl ht (hopens.ne_of_ofChar? ht.1) rfl rfl
  rw [foldl_typeKey_of_spells he.phase hspells, view_dispatch, run, runWith, hplan, hmode]
  exact bitten_repeatPlan (c := c) hbites hop rfl ht (hopens.ne_of_ofChar? ht.1) rfl rfl _ hplan
    hprepare

end Editor

namespace Session

variable {s : Session}

/-- **The counts of a deletion multiply.**  In a reachable session that waits for a command in
normal mode, with the key for deleting not bound otherwise, and for a motion over words or along the
line: a count for the deletion and another for the motion, their product for the deletion, and their
product for the motion all leave the same text with the cursor at the same place. -/
theorem delete_counts_multiply (h : s.Reachable) (henabled : s.enabled = true)
    (hmode : s.mode = .normal) (hpending : s.hasPending = false)
    (hfree : s.config.hostCommands? 'd' = none) {m : Char} {argument : Option Char}
    (hm : m ∈ ['w', 'b', 'h', 'l', 'e', 's'] ∧ argument = none ∨
      m ∈ ['f', 'F'] ∧ argument.isSome)
    {a b : Nat} (ha : 1 ≤ a) (hb : 1 ≤ b) (hab : a * b ≤ 99999) :
    let motion := m :: argument.toList
    let both := s.typeKeys (Nat.toDigits 10 a ++ 'd' :: (Nat.toDigits 10 b ++ motion))
    let front := s.typeKeys (Nat.toDigits 10 (a * b) ++ 'd' :: motion)
    let inner := s.typeKeys ('d' :: (Nat.toDigits 10 (a * b) ++ motion))
    both.buffer.text = front.buffer.text ∧ both.buffer.cursor = front.buffer.cursor ∧
      both.buffer.text = inner.buffer.text ∧ both.buffer.cursor = inner.buffer.cursor := by
  intro motion both front inner
  obtain ⟨hwf, -, hphase⟩ := h.waiting henabled hmode hpending
  obtain ⟨t, rfl, ht, hlooks⟩ := Travel.exists_looks_of_key hm
  obtain ⟨bite, hbites⟩ := Travel.exists_bites hlooks s.config.wordSeparators.toList
  have hop : s.config.operator? 'd' = some Operator.delete := by
    rw [Config.operator?, hfree]
    rfl
  let parts : Parts :=
    (s.buffer.document.lines.before s.buffer.cursor, s.buffer.document.lines.after s.buffer.cursor)
  have hs : s.view.Bitten s.config parts := ⟨hwf.splits_cursor, rfl, hphase⟩
  -- However the counts are typed, it is the product that matters.
  have htyped (ds es : Digits) (hds : ds.IsCount) (hes : es.IsCount)
      (hproduct : max es.amount 1 * max ds.amount 1 = a * b) :
      (s.typeKeys (ds ++ 'd' :: (es ++ motion))).buffer.document.Splits
        (bite^[a * b] parts).1 (bite^[a * b] parts).2 := by
    rw [Editor.typeKeys, if_pos henabled, ← hproduct]
    exact (Editor.bitten_foldl_typeKey hbites hop hds hes ht hs).splits
  have hpos : 1 ≤ a * b := Nat.mul_pos ha hb
  have hamount {n : Nat} (hn : 1 ≤ n) (hle : n ≤ a * b) :
      max (Digits.amount (Nat.toDigits 10 n)) 1 = n := by
    rw [Digits.amount_toDigits hn, Digits.maximum]
    omega
  have hcount {n : Nat} (hn : 1 ≤ n) : Digits.IsCount (Nat.toDigits 10 n) :=
    .inr (Digits.isNumeral_toDigits hn)
  have hboth := htyped _ _ (hcount ha) (hcount hb) (by
    rw [hamount ha (Nat.le_mul_of_pos_right a hb), hamount hb (Nat.le_mul_of_pos_left b ha),
      Nat.mul_comm])
  have hfront := htyped _ [] (hcount hpos) (.inl rfl) (by
    rw [hamount hpos (Nat.le_refl _)]
    exact Nat.one_mul _)
  have hinner := htyped [] _ (.inl rfl) (hcount hpos) (by
    rw [hamount hpos (Nat.le_refl _)]
    exact Nat.mul_one _)
  exact ⟨hboth.text.trans hfront.text.symm, hboth.cursor_eq.trans hfront.cursor_eq.symm,
    hboth.text.trans hinner.text.symm, hboth.cursor_eq.trans hinner.cursor_eq.symm⟩

/-- Six words over three lines, one of them blank: deleting twice two words joins lines on the
way, and four words at once are gone all the same. -/
theorem delete_counts_multiply_words :
    let s := start ['a', ' ', 'b', '\n', ' ', '\n', 'c', ' ', 'd', ' ', 'e'] 5 {} {}
      (.memory none) none
    (s.typeKeys ['2', 'd', '2', 'w']).buffer.text =
        (s.typeKeys ['d', '4', 'w']).buffer.text ∧
      (s.typeKeys ['2', 'd', '2', 'w']).buffer.cursor =
        (s.typeKeys ['4', 'd', 'w']).buffer.cursor ∧
      (s.typeKeys ['d', '4', 'w']).buffer.text = ['d', ' ', 'e'] := by
  intro s
  have hs : s.Reachable := .start ..
  have hfree : s.config.hostCommands? 'd' = none := by decide +kernel
  have htext : (s.typeKeys ['d', '4', 'w']).buffer.text = ['d', ' ', 'e'] := by decide +kernel
  have henabled : s.enabled = true := rfl
  have hmode : s.mode = .normal := rfl
  have hpending : s.hasPending = false := rfl
  clear_value s
  have hm : 'w' ∈ ['w', 'b', 'h', 'l', 'e', 's'] ∧ (none : Option Char) = none ∨
      'w' ∈ ['f', 'F'] ∧ (none : Option Char).isSome := .inl ⟨by decide, rfl⟩
  have h := delete_counts_multiply hs henabled hmode hpending hfree hm (show 1 ≤ 2 by decide)
    (show 1 ≤ 2 by decide) (by decide)
  rw [show Nat.toDigits 10 2 = ['2'] by decide, show Nat.toDigits 10 (2 * 2) = ['4'] by decide] at h
  obtain ⟨-, hcursor, hinner, -⟩ := h
  exact ⟨hinner, hcursor, htext⟩

end Session

end ModalEditor
