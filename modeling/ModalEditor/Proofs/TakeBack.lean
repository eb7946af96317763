import Mathlib.Data.List.DropRight
import ModalEditor.Proofs.InsertMode
import ModalEditor.Proofs.NothingRead

/-!
# What leaving insert mode takes back

The reader of the escape sequence goes by the characters that are typed, while a backspace changes
the text only.  So when the sequence is complete, the characters taken back are as many as it has,
and they are the sequence itself if no backspace was among the last keys, but not in general.

`Editor.Watching` is what every key of a run keeps: unless there was a backspace among the keys that
the reader holds, they stand before the cursor.
-/

namespace ModalEditor

namespace Editor

variable {e : Editor} {escape : List Char} {keys : List Key} {c : Char}

/-- After a run of keys, the text before the cursor ends with what the reader of the escape sequence
holds, unless there was a backspace among the last keys, as many as it holds. -/
structure Watching (escape : List Char) (keys : List Key) (e : Editor) : Prop where
  wellFormed : e.buffer.WellFormed
  enabled : e.enabled = true
  escape_eq : e.escape = escape
  isSuffix {typed : EscapeReader} (h : e.phase = .insert typed)
    (hkeys : Key.backspace ∉ keys.rtake typed.length) : typed <:+ e.lines.before e.buffer.cursor

theorem watching_nil (hwf : e.buffer.WellFormed) (henabled : e.enabled = true)
    (hphase : e.phase = .insert .initial) : e.Watching e.escape [] where
  wellFormed := hwf
  enabled := henabled
  escape_eq := rfl
  isSuffix := by
    intro typed h _
    rw [hphase] at h
    injection h with h
    rw [← h]
    exact List.nil_suffix

/-- What is held stands before the cursor, and so it does with one more character. -/
theorem Watching.isSuffix_snoc {typed : EscapeReader} {x y : List Char}
    (h : e.Watching escape keys) (hphase : e.phase = .insert typed)
    (hsplits : e.buffer.document.Splits x y)
    (hkeys : Key.backspace ∉ (keys ++ [Key.char c]).rtake (typed ++ [c]).length) :
    typed ++ [c] <:+ x ++ [c] := by
  rw [List.length_append, List.length_singleton, List.rtake_concat_succ, List.mem_append,
    not_or] at hkeys
  have hbefore : e.lines.before e.buffer.cursor = x := hsplits.before
  have hheld := h.isSuffix hphase hkeys.1
  rw [hbefore] at hheld
  exact (List.suffix_append_inj_of_length_eq rfl).2 ⟨hheld, rfl⟩

/-- A character goes on with what is held, if it goes on with the escape sequence. -/
theorem Watching.typeKey (h : e.Watching escape keys) (hescape : escape ≠ []) (c : Char) :
    (e.typeKey c).Watching escape (keys ++ [.char c]) := by
  obtain rfl := h.escape_eq
  obtain ⟨hconfig, henabled⟩ := settings_typeKey e c
  refine ⟨wellFormed_typeKey h.wellFormed c, henabled.trans h.enabled,
    by rw [Editor.escape, hconfig]; rfl, ?_⟩
  intro typed' hphase' hkeys
  cases hphase : e.phase with
  | normal | visual =>
    have hmode : e.mode ≠ .insert := by simp [mode, hphase, Phase.mode]
    rw [initial_of_typeKey hmode hphase']
    exact List.nil_suffix
  | insert typed =>
    obtain ⟨x, y, hxy⟩ : ∃ x y, e.buffer.document.Splits x y :=
      ⟨_, _, h.wellFormed.document.splits⟩
    have hinserting : e.Inserting typed x y := ⟨hphase, hxy⟩
    cases hc : (typed.read e.escape c).isComplete e.escape with
    | true =>
      rw [(hinserting.typeKey_of_complete hc).1] at hphase'
      cases hphase'
    | false =>
      obtain ⟨hphase'', hsplits⟩ := hinserting.typeKey hc
      rw [hphase''] at hphase'
      injection hphase' with htyped
      subst htyped
      rcases EscapeReader.read_eq hescape typed c with ⟨heq, -⟩ | heq
      · have hafter : (e.typeKey c).lines.before (e.typeKey c).buffer.cursor = x ++ [c] :=
          hsplits.before
        rw [heq] at hkeys ⊢
        rw [hafter]
        exact h.isSuffix_snoc hphase hxy hkeys
      · rw [heq]
        exact List.nil_suffix

/-- A backspace leaves the reader as it is, so it counts against what is held. -/
theorem Watching.backspace (h : e.Watching escape keys) :
    (e.mapBuffer Buffer.backspace).Watching escape (keys ++ [.backspace]) := by
  obtain ⟨hwf, henabled, hescape, -⟩ := h
  refine ⟨(acts_backspace : Acts true _ e).wellFormed hwf, henabled, hescape, ?_⟩
  intro typed hphase hkeys
  rcases List.eq_nil_or_concat' typed with rfl | ⟨typed, c, rfl⟩
  · exact List.nil_suffix
  · rw [List.length_append, List.length_singleton, List.rtake_concat_succ] at hkeys
    exact absurd (List.mem_append_right _ (List.mem_singleton_self _)) hkeys

/-- Outside insert mode nothing is watched. -/
theorem Watching.of_ne_insert (h : e.Watching escape keys) (hm : e.mode ≠ .insert) (k : Key) :
    e.Watching escape (keys ++ [k]) := by
  obtain ⟨hwf, henabled, hescape, -⟩ := h
  refine ⟨hwf, henabled, hescape, ?_⟩
  intro typed hphase _
  exact absurd (congrArg Phase.mode hphase) hm

end Editor

namespace Session

variable {s : Session} {keys : List Key} {escape : List Char}

theorem watching_handleAll (h : s.Watching escape []) (hescape : escape ≠ [])
    (hkeys : ∀ k ∈ keys, k = .backspace ∨ ∃ c, k = .char c) :
    (s.handleAll keys).Watching escape keys := by
  induction keys using List.reverseRecOn with
  | nil => exact h
  | append_singleton keys k ih =>
    have hrun := ih fun k hk => hkeys k (List.mem_append_left _ hk)
    rw [handleAll_snoc]
    rcases hkeys k (by simp) with rfl | ⟨c, rfl⟩
    · rw [handle_backspace]
      split
      · exact hrun.backspace
      · next hm => exact hrun.of_ne_insert hm _
    · rw [handle_char hrun.enabled]
      exact hrun.typeKey hescape c

/-- **What leaving insert mode takes back.**  In a reachable session in insert mode, with nothing of
the escape sequence typed, let characters and backspaces be handled.  If then a character leads out
of insert mode, it is inserted, and then as many characters before the cursor are taken back as the
sequence has, or all of them.  With no backspace among the last keys, as many as the sequence has,
they are the sequence. -/
theorem takenBack_of_leaves_insert (h : s.Reachable) (henabled : s.enabled = true)
    (hphase : s.phase = .insert .initial) (hescape : s.escape ≠ [])
    (hkeys : ∀ k ∈ keys, k = .backspace ∨ ∃ c, k = .char c) {c : Char}
    (hmode : (s.handleAll keys).mode = .insert)
    (hleaves : (s.handleAll (keys ++ [.char c])).mode ≠ .insert) :
    let inserted := (s.handleAll keys).buffer.typeText [c]
    let left := s.handleAll (keys ++ [Key.char c])
    ∃ x taken y, inserted.document.Splits (x ++ taken) y ∧
      left.buffer.document.Splits x y ∧ left.phase = .normal .initial ∧
      taken.length = min s.escape.length (x ++ taken).length ∧
      (Key.backspace ∉ (keys ++ [Key.char c]).rtake s.escape.length → taken = s.escape) := by
  intro inserted left
  have hwatching := watching_handleAll (Editor.watching_nil h.buffer_wellFormed henabled hphase)
    hescape hkeys
  have hleft : left.toEditor = (s.handleAll keys).typeKey c := by
    rw [← handle_char hwatching.enabled, ← handleAll_snoc]
  obtain ⟨typed, x, y, hinserting⟩ :=
    Editor.exists_inserting hwatching.wellFormed.document hmode
  have hcomplete := hinserting.isComplete_of_typeKey (c := c) (by rwa [← hleft])
  -- What is taken back are the last characters of the text before the cursor.
  have hback := hinserting.typeKey_of_complete hcomplete
  rw [← hleft, hwatching.escape_eq] at hback
  let n := (x ++ [c]).length - s.escape.length
  refine ⟨(x ++ [c]).take n, (x ++ [c]).drop n, y, ?_, hback.2, hback.1, ?_, fun hlast => ?_⟩
  · rw [List.take_append_drop]
    exact Buffer.splits_typeText hinserting.splits [c]
  · rw [List.take_append_drop, List.length_drop]
    omega
  · have htyped : typed ++ [c] = s.escape := by
      rw [hwatching.escape_eq] at hcomplete
      exact EscapeReader.append_eq_of_isComplete hescape hcomplete
    rw [← htyped] at hlast
    have hsuffix := hwatching.isSuffix_snoc hinserting.phase hinserting.splits hlast
    rw [htyped] at hsuffix
    exact (List.suffix_iff_eq_drop.1 hsuffix).symm

/-- A backspace before the sequence does no harm. -/
theorem takenBack_of_leaves_insert_backspaceBefore :
    let s := (start ['x'] 5 {} {} (.memory none) none).operate (.press (.char 'a'))
    let keys : List Key := [.char 'q', .backspace, .char 'j']
    let inserted := (s.handleAll keys).buffer.typeText ['k']
    let left := s.handleAll (keys ++ [.char 'k'])
    ∃ x y, inserted.document.Splits (x ++ ['j', 'k']) y ∧ left.buffer.document.Splits x y ∧
      left.phase = .normal .initial := by
  intro s keys inserted left
  have hs : s.Reachable := .operate (.start ..) _
  have henabled : s.enabled = true := by decide +kernel
  have hphase : s.phase = .insert .initial := by decide +kernel
  have hescape : s.escape = ['j', 'k'] := by decide +kernel
  have hkeys : ∀ k ∈ keys, k = .backspace ∨ ∃ c, k = .char c := by simp [keys]
  have hmode : (s.handleAll keys).mode = .insert := by decide +kernel
  have hleaves : (s.handleAll (keys ++ [.char 'k'])).mode ≠ .insert := by decide +kernel
  have hlast : Key.backspace ∉ (keys ++ [Key.char 'k']).rtake 2 := by decide
  clear_value s
  obtain ⟨x, taken, y, hinserted, hleft, hnormal, -, htaken⟩ :=
    takenBack_of_leaves_insert hs henabled hphase (by rw [hescape]; decide) hkeys hmode hleaves
  rw [hescape] at htaken
  obtain rfl := htaken hlast
  exact ⟨x, y, hinserted, hleft, hnormal⟩

/-- A backspace within the sequence does: the reader still holds the character that has been
erased, so with the next one a character of the text is taken back that was not typed as a part of
the sequence. -/
theorem takenBack_backspaceWithin :
    let s := (start ['x'] 5 {} {} (.memory none) none).operate (.press (.char 'a'))
    let keys : List Key := [.char 'j', .backspace]
    let inserted := (s.handleAll keys).buffer.typeText ['k']
    let left := s.handleAll (keys ++ [.char 'k'])
    s.Reachable ∧ s.enabled = true ∧ s.phase = .insert .initial ∧ s.escape = ['j', 'k'] ∧
      (s.handleAll keys).mode = .insert ∧ left.mode = .normal ∧
      inserted.text = ['x', 'k'] ∧ left.buffer.text = [] ∧
      ¬∃ x y, inserted.document.Splits (x ++ s.escape) y ∧ left.buffer.document.Splits x y := by
  intro s keys inserted left
  have hescape : s.escape = ['j', 'k'] := by decide +kernel
  have hinserted : inserted.text = ['x', 'k'] := by decide +kernel
  refine ⟨.operate (.start ..) _, by decide +kernel, by decide +kernel, hescape, by decide +kernel,
    by decide +kernel, hinserted, by decide +kernel, ?_⟩
  rintro ⟨x, y, hsplits, -⟩
  have htext : ['x', 'k'] = x ++ ['j', 'k'] ++ y := by
    rw [← hinserted, ← hescape]
    exact hsplits.text
  have hlength := congrArg List.length htext
  obtain rfl : x = [] := List.length_eq_zero_iff.1 (by simp at hlength; omega)
  cases htext

end Session

end ModalEditor
