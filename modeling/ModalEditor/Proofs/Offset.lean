import ModalEditor.Proofs.Position

/-!
# Places and offsets

A position in a text of lines is also a number of characters from the start of the text, where each
line break counts as one (`Lines.offset`).  A place of the text splits it in two
(`Lines.before_append_after`), and the length of the front part is its offset.  Places and offsets
determine each other: a place is where typing the text before it leads (`Lines.advance_before`),
each front part of the text ends at a place (`Lines.inRange_advance`), and the order of places is
that of their offsets (`Lines.le_iff_offset_le`).

The edits of lines are edits of the text: inserting at a place splices the text there
(`Lines.text_insertAt`), and erasing between two places joins what is before the one to what is
after the other (`Lines.text_eraseBetween`).
-/

namespace ModalEditor

/-- Splitting a list leaves no separator behind. -/
theorem not_mem_of_mem_splitOn {α : Type} [BEq α] [LawfulBEq α] {a : α} {t l : List α}
    (h : l ∈ t.splitOn a) : a ∉ l := by
  induction t generalizing l with
  | nil => simp_all
  | cons c t ih =>
    obtain ⟨m, ms, hsplit⟩ := List.exists_cons_of_ne_nil (List.splitOn_ne_nil a t)
    rw [List.splitOn_cons_eq_if_modifyHead, hsplit] at h
    rw [hsplit] at ih
    -- A separator opens a new first part; anything else joins the first part.
    by_cases hc : c = a
    · subst hc
      simp only [BEq.rfl, ↓reduceIte, List.mem_cons] at h
      rcases h with rfl | h
      · exact List.not_mem_nil
      · exact ih (List.mem_cons.2 h)
    · simp only [beq_iff_eq, hc, ↓reduceIte, List.modifyHead_cons, List.mem_cons] at h
      rcases h with rfl | h
      · have hm : a ∉ m := ih List.mem_cons_self
        simp [hm, Ne.symm hc]
      · exact ih (List.mem_cons_of_mem _ h)

namespace Lines

/-- The number of characters before `p`, a place of the text: those of the lines before, with
their line breaks, and those of its own line. -/
def offset (ls : Lines) (p : Position) : Nat :=
  ((ls.take p.line).flatMap fun l => l ++ ['\n']).length + p.column

variable {ls ms : Lines} {l t : List Char} {p q : Position} {n : Nat}

instance : Decidable ls.WellFormed := inferInstanceAs (Decidable (_ ∧ _))

instance : Decidable (ls.InRange p) := inferInstanceAs (Decidable (_ ∧ _))

/-! ### Lines and text -/

theorem text_ofText (t : List Char) : text (ofText t) = t := List.intercalate_splitOn '\n'

theorem ofText_text (h : ls.WellFormed) : ofText ls.text = ls :=
  List.splitOn_intercalate '\n' h.2 h.1

/-- A text has one list of lines. -/
theorem eq_of_text_eq (hl : ls.WellFormed) (hm : ms.WellFormed) (h : ls.text = ms.text) :
    ls = ms := by
  rw [← ofText_text hl, ← ofText_text hm, h]

theorem ofText_ne_nil (t : List Char) : ofText t ≠ [] := List.splitOn_ne_nil '\n' t

/-- Splitting leaves no line feed behind. -/
theorem wellFormed_ofText (t : List Char) : (ofText t).WellFormed :=
  ⟨ofText_ne_nil t, fun _ h => not_mem_of_mem_splitOn h⟩

theorem text_cons (l : List Char) (h : ls ≠ []) : text (l :: ls) = l ++ '\n' :: text ls := by
  simp [text, List.intercalate_cons_of_ne_nil h]

@[simp] theorem text_singleton (l : List Char) : text [l] = l := List.intercalate_singleton

@[simp] theorem text_cons_cons (c : Char) (l : List Char) (ls : Lines) :
    text ((c :: l) :: ls) = c :: text (l :: ls) := List.intercalate_cons_cons_left

/-- What is put in front of the first line is put in front of the text. -/
@[simp] theorem text_append_cons (s l : List Char) (ls : Lines) :
    text ((s ++ l) :: ls) = s ++ text (l :: ls) := by
  induction s with
  | nil => rfl
  | cons c s ih => rw [List.cons_append, text_cons_cons, ih, List.cons_append]

/-- The lines at the front count as one line that holds their text. -/
theorem text_append (h : ls ≠ []) (ms : Lines) : text (ls ++ ms) = text (ls.text :: ms) := by
  induction ls with
  | nil => exact absurd rfl h
  | cons l ls ih =>
    by_cases hls : ls = []
    · subst hls; simp
    · rw [List.cons_append, text_cons _ (by simp [hls]), text_cons l hls, ih hls]
      simp

/-- Lines with the line feeds that end them. -/
def terminated (ls : Lines) : List Char := ls.flatMap fun l => l ++ ['\n']

theorem text_append_line (ls : Lines) (l : List Char) (ms : Lines) :
    text (ls ++ l :: ms) = ls.terminated ++ text (l :: ms) := by
  induction ls with
  | nil => rfl
  | cons k ls ih =>
    rw [List.cons_append, text_cons k (by simp), ih]
    simp [terminated]

theorem line_eq_getElem (h : n < ls.length) : ls.line n = ls[n] := by
  simp [line, h]

theorem drop_eq_line_cons (h : n < ls.length) : ls.drop n = ls.line n :: ls.drop (n + 1) := by
  rw [line_eq_getElem h]; exact List.drop_eq_getElem_cons h

theorem notMem_line (h : ls.WellFormed) (n : Nat) : '\n' ∉ ls.line n := by
  by_cases hn : n < ls.length
  · rw [line_eq_getElem hn]; exact h.2 _ (List.getElem_mem hn)
  · simp [line, Nat.le_of_not_lt hn]

/-! ### Places -/

theorem inRange_clamp (h : ls ≠ []) (p : Position) : ls.InRange (ls.clamp p) := by
  have := List.length_pos_iff.2 h
  simp only [InRange, clamp, lastLine]; omega

theorem clamp_of_inRange (h : ls.InRange p) : ls.clamp p = p := by
  obtain ⟨h₁, h₂⟩ := h
  have : min p.line (ls.length - 1) = p.line := by omega
  simp only [clamp, lastLine, this]
  ext
  · rfl
  · exact Nat.min_eq_left h₂

/-- The text before a place. -/
def before (ls : Lines) (p : Position) : List Char :=
  terminated (ls.take p.line) ++ (ls.line p.line).take p.column

/-- The text after a place. -/
def after (ls : Lines) (p : Position) : List Char :=
  text ((ls.line p.line).drop p.column :: ls.drop (p.line + 1))

/-- A place splits the text in two. -/
theorem before_append_after (h : ls.InRange p) : ls.before p ++ ls.after p = ls.text := by
  rw [before, after, List.append_assoc, ← text_append_cons, List.take_append_drop,
    ← text_append_line, ← drop_eq_line_cons h.1, List.take_append_drop]

/-- The offset of a place counts the characters before it. -/
theorem length_before (h : ls.InRange p) : (ls.before p).length = ls.offset p := by
  have := h.2
  simp only [lineLength] at this
  simp [before, offset, terminated, this]

theorem before_eq_take (h : ls.InRange p) : ls.before p = ls.text.take (ls.offset p) := by
  rw [← before_append_after h, ← length_before h, List.take_left]

theorem after_eq_drop (h : ls.InRange p) : ls.after p = ls.text.drop (ls.offset p) := by
  rw [← before_append_after h, ← length_before h, List.drop_left]

/-- Typing the text before a place leads to it. -/
theorem advance_before (hw : ls.WellFormed) (h : ls.InRange p) :
    Position.origin.advance (ls.before p) = p := by
  -- Whole lines, typed from the start of a line, lead to the start of a later one.
  have key : ∀ (ms : Lines) (n : Nat), (∀ l ∈ ms, '\n' ∉ l) →
      Position.advance ⟨n, 0⟩ (terminated ms) = ⟨n + ms.length, 0⟩ := by
    intro ms
    induction ms with
    | nil => intro n _; rfl
    | cons l ms ih =>
      intro n hms
      have hl := hms l List.mem_cons_self
      have : terminated (l :: ms) = (l ++ ['\n']) ++ terminated ms := by simp [terminated]
      rw [this, Position.advance_append, Position.advance_line_break _ hl,
        ih _ fun k hk => hms k (List.mem_cons_of_mem _ hk)]
      simp only [List.length_cons, Position.mk.injEq, and_true]; omega
  have hcol : '\n' ∉ (ls.line p.line).take p.column :=
    fun hm => notMem_line hw p.line (List.mem_of_mem_take hm)
  have hlen := h.2
  rw [before, Position.advance_append, Position.origin,
    key _ _ fun l hl => hw.2 l (List.mem_of_mem_take hl), Position.advance_of_notMem _ hcol]
  simp only [lineLength] at hlen
  ext
  · simp only [List.length_take]; have := h.1; omega
  · simp only [List.length_take]; omega

/-- Each offset up to the length of the text is the offset of a place. -/
theorem exists_offset_eq (hls : ls ≠ []) {o : Nat} (ho : o ≤ ls.text.length) :
    ∃ p, ls.InRange p ∧ ls.offset p = o := by
  induction ls generalizing o with
  | nil => exact absurd rfl hls
  | cons l ls ih =>
    by_cases hol : o ≤ l.length
    · exact ⟨⟨0, o⟩, by simpa [InRange, lineLength, line] using hol, by simp [offset]⟩
    · have hne : ls ≠ [] := by
        rintro rfl
        simp at ho; omega
      rw [text_cons l hne] at ho
      simp only [List.length_append, List.length_cons] at ho
      -- The offset lies in a later line, past the line feed of this one.
      obtain ⟨p, hp, hpo⟩ := ih hne (o := o - (l.length + 1)) (by omega)
      refine ⟨⟨p.line + 1, p.column⟩, ?_, ?_⟩
      · simpa [InRange, lineLength, line] using hp
      · simp only [offset] at hpo
        simp only [offset, List.take_succ_cons, List.flatMap_cons, List.length_append,
          List.length_singleton]; omega

/-- A front part of the text ends at a place, which is where typing it leads. -/
theorem inRange_advance (hw : ls.WellFormed) (h : t <+: ls.text) :
    ls.InRange (Position.origin.advance t) ∧ ls.before (Position.origin.advance t) = t := by
  obtain ⟨p, hp, ho⟩ := exists_offset_eq hw.1 h.length_le
  have ht : ls.before p = t := by
    rw [before_eq_take hp, ho]; exact (List.prefix_iff_eq_take.1 h).symm
  have hadv : Position.origin.advance t = p := by rw [← ht]; exact advance_before hw hp
  exact ⟨hadv ▸ hp, by rw [hadv, ht]⟩

theorem offset_advance (hw : ls.WellFormed) (h : t <+: ls.text) :
    ls.offset (Position.origin.advance t) = t.length := by
  obtain ⟨h₁, h₂⟩ := inRange_advance hw h
  rw [← length_before h₁, h₂]

theorem isPrefix_before (h : ls.InRange p) : ls.before p <+: ls.text :=
  ⟨ls.after p, before_append_after h⟩

/-- Of two places, the one with the greater offset is reached from the other by typing the text
between them. -/
theorem exists_before_eq_append (hw : ls.WellFormed) (hp : ls.InRange p) (hq : ls.InRange q)
    (h : ls.offset p ≤ ls.offset q) :
    ∃ m, ls.before q = ls.before p ++ m ∧ q = p.advance m ∧
      ls.offset q = ls.offset p + m.length := by
  have hlen : (ls.before p).length ≤ (ls.before q).length := by
    rwa [length_before hp, length_before hq]
  obtain ⟨m, hm⟩ := List.prefix_of_prefix_length_le (isPrefix_before hp) (isPrefix_before hq) hlen
  refine ⟨m, hm.symm, ?_, ?_⟩
  · rw [← advance_before hw hq, ← hm, Position.advance_append, advance_before hw hp]
  · rw [← length_before hq, ← hm, List.length_append, length_before hp]

theorem le_iff_offset_le (hw : ls.WellFormed) (hp : ls.InRange p) (hq : ls.InRange q) :
    p ≤ q ↔ ls.offset p ≤ ls.offset q := by
  constructor
  · intro h
    by_cases ho : ls.offset p ≤ ls.offset q
    · exact ho
    · -- Otherwise `q` comes first, so the two places are one.
      obtain ⟨m, -, rfl, hm⟩ := exists_before_eq_append hw hq hp (by omega)
      have := q.advance_inj (Position.le_antisymm h (q.le_advance m))
      subst this; simp
  · intro h
    obtain ⟨m, -, rfl, -⟩ := exists_before_eq_append hw hp hq h
    exact p.le_advance m

theorem lt_iff_offset_lt (hw : ls.WellFormed) (hp : ls.InRange p) (hq : ls.InRange q) :
    p < q ↔ ls.offset p < ls.offset q := by
  rw [← Position.not_le, le_iff_offset_le hw hq hp, Nat.not_le]

theorem offset_inj (hw : ls.WellFormed) (hp : ls.InRange p) (hq : ls.InRange q)
    (h : ls.offset p = ls.offset q) : p = q :=
  Position.le_antisymm ((le_iff_offset_le hw hp hq).2 (by omega))
    ((le_iff_offset_le hw hq hp).2 (by omega))

/-! ### Edits -/

theorem text_insertAt (ls : Lines) (p : Position) (t : List Char) :
    (ls.insertAt p t).text = ls.before p ++ t ++ ls.after p := by
  have hne := ofText_ne_nil ((ls.line p.line).take p.column ++ t ++ (ls.line p.line).drop p.column)
  obtain ⟨k, ks, hk⟩ := List.exists_cons_of_ne_nil hne
  have hjoin : text (k :: (ks ++ ls.drop (p.line + 1))) =
      (ls.line p.line).take p.column ++ t ++ ls.after p := by
    rw [← List.cons_append, ← hk, text_append hne, text_ofText, text_append_cons, after]
  simp only [insertAt, hk]
  rw [List.append_assoc, List.cons_append, text_append_line, hjoin, before]
  simp only [List.append_assoc]

theorem text_eraseBetween (ls : Lines) (p q : Position) :
    (ls.eraseBetween p q).text = ls.before p ++ ls.after q := by
  rw [eraseBetween, List.append_assoc, List.singleton_append, text_append_line, text_append_cons,
    before, after, List.append_assoc]

theorem wellFormed_insertAt (h : ls.WellFormed) (p : Position) (t : List Char) :
    (ls.insertAt p t).WellFormed := by
  have hp := wellFormed_ofText
    ((ls.line p.line).take p.column ++ t ++ (ls.line p.line).drop p.column)
  refine ⟨List.append_ne_nil_of_left_ne_nil (List.append_ne_nil_of_right_ne_nil _ hp.1) _,
    fun l hl => ?_⟩
  simp only [insertAt, List.mem_append] at hl
  rcases hl with (hl | hl) | hl
  · exact h.2 l (List.mem_of_mem_take hl)
  · exact hp.2 l (by simpa using hl)
  · exact h.2 l (List.mem_of_mem_drop hl)

theorem wellFormed_eraseBetween (h : ls.WellFormed) (p q : Position) :
    (ls.eraseBetween p q).WellFormed := by
  refine ⟨by simp [eraseBetween], fun l hl => ?_⟩
  simp only [eraseBetween, List.mem_append, List.mem_singleton] at hl
  rcases hl with (hl | rfl) | hl
  · exact h.2 l (List.mem_of_mem_take hl)
  · rw [List.mem_append, not_or]
    exact ⟨fun hm => notMem_line h p.line (List.mem_of_mem_take hm),
      fun hm => notMem_line h q.line (List.mem_of_mem_drop hm)⟩
  · exact h.2 l (List.mem_of_mem_drop hl)

/-! ### Foreign text -/

theorem dropReturn_subset (l : List Char) : dropReturn l ⊆ l := by
  rw [dropReturn]
  split
  · exact List.dropLast_subset l
  · exact List.Subset.refl l

theorem wellFormed_ofForeignText (t : List Char) : (ofForeignText t).WellFormed := by
  have h := wellFormed_ofText t
  refine ⟨by simp [ofForeignText, List.getLast?_eq_none_iff, h.1], fun l hl => ?_⟩
  simp only [ofForeignText, List.mem_append, List.mem_map, Option.mem_toList] at hl
  rcases hl with ⟨k, hk, rfl⟩ | hl
  · exact fun hm => h.2 k (List.dropLast_subset _ hk) (dropReturn_subset k hm)
  · exact h.2 l (List.mem_of_getLast? hl)

end Lines

end ModalEditor
