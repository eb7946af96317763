import Mathlib.Data.List.Infix
import ModalEditor.Proofs.Reachable
import ModalEditor.Proofs.Travel
import ModalEditor.Proofs.Typing

/-!
# Text typed in insert mode

In insert mode the escape sequence is typed into the text like any other, and taken back when it is
complete.  What the reader that watches for it holds ends the text that has been typed
(`EscapeReader.ofText_isSuffix`), so what is taken back is the sequence itself.

All in all the text typed before the sequence is inserted at the cursor, and the sequence leaves no
trace (`Editor.Inserting.foldl_typeKey_of_complete`).
-/

namespace ModalEditor

/-! ### Watching for the escape sequence -/

namespace EscapeReader

variable {escape t : List Char} {typed : EscapeReader} {c : Char}

/-- The reader after a text has been typed. -/
def ofText (escape t : List Char) : EscapeReader := t.foldl (read escape) initial

theorem ofText_snoc (t : List Char) (c : Char) :
    ofText escape (t ++ [c]) = (ofText escape t).read escape c := by
  simp [ofText]

/-- A character goes on with the sequence, or nothing of the sequence is held any more. -/
theorem read_eq (h : escape ≠ []) (typed : EscapeReader) (c : Char) :
    typed.read escape c = typed ++ [c] ∧ typed ++ [c] <+: escape ∨ typed.read escape c = [] := by
  rw [read, if_neg (by simpa using h)]
  split
  · next hprefix => exact .inl ⟨rfl, by simpa using hprefix⟩
  · exact .inr rfl

theorem read_of_isPrefix (h : typed ++ [c] <+: escape) : typed.read escape c = typed ++ [c] := by
  have hne : escape ≠ [] := by
    rintro rfl
    simp at h
  rw [read, if_neg (by simpa using hne), if_pos (by simpa using h)]

/-- What the reader holds ends the text that has been typed. -/
theorem ofText_isSuffix (h : escape ≠ []) (t : List Char) : ofText escape t <:+ t := by
  induction t using List.reverseRecOn with
  | nil => exact List.suffix_refl _
  | append_singleton t c ih =>
    rw [ofText_snoc]
    rcases read_eq h (ofText escape t) c with ⟨heq, -⟩ | heq
    · rw [heq]
      exact (List.suffix_append_inj_of_length_eq rfl).2 ⟨ih, rfl⟩
    · rw [heq]
      exact List.nil_suffix

/-- A front part of the sequence is held as it is typed. -/
theorem ofText_of_isPrefix (h : t <+: escape) : ofText escape t = t := by
  induction t using List.reverseRecOn with
  | nil => rfl
  | append_singleton t c ih =>
    rw [ofText_snoc, ih ((List.prefix_append t [c]).trans h), read_of_isPrefix h]

theorem isComplete_iff (h : escape ≠ []) : typed.isComplete escape = true ↔ typed = escape := by
  simp [isComplete, h]

/-- The character that completes the sequence is its last one. -/
theorem append_eq_of_isComplete (h : escape ≠ [])
    (hc : (typed.read escape c).isComplete escape = true) : typed ++ [c] = escape := by
  have hread := (isComplete_iff h).1 hc
  rcases read_eq h typed c with ⟨heq, -⟩ | heq
  · exact heq.symm.trans hread
  · exact absurd (hread.symm.trans heq) h

end EscapeReader

namespace Editor

variable {e : Editor} {typed : EscapeReader} {c : Char} {t x y : List Char}

/-! ### Insert mode -/

/-- In insert mode, with the cursor between the texts `x` and `y`, and with `typed` of the escape
sequence watched. -/
structure Inserting (e : Editor) (typed : EscapeReader) (x y : List Char) : Prop where
  phase : e.phase = .insert typed
  splits : e.buffer.document.Splits x y

theorem exists_inserting (hwf : e.buffer.document.WellFormed) (hm : e.mode = .insert) :
    ∃ typed x y, e.Inserting typed x y := by
  obtain ⟨typed, hp⟩ := Phase.exists_insert hm
  exact ⟨typed, _, _, hp, hwf.splits⟩

/-- Unless it completes the escape sequence, a character is inserted. -/
theorem Inserting.typeKey (h : e.Inserting typed x y)
    (hc : (typed.read e.escape c).isComplete e.escape = false) :
    (e.typeKey c).Inserting (typed.read e.escape c) (x ++ [c]) y := by
  obtain ⟨hphase, hsplits⟩ := h
  have hkey : e.typeKey c = { e.mapBuffer fun b => b.typeText [c] with
      phase := .insert (typed.read e.escape c) } := by
    rw [Editor.typeKey, hphase]
    exact if_neg (ne_true_of_eq_false hc)
  rw [hkey]
  exact ⟨rfl, Buffer.splits_typeText hsplits [c]⟩

/-- Leaving insert mode takes back as many characters as the escape sequence has. -/
theorem Inserting.leaveInsert (h : e.Inserting typed x y) :
    e.leaveInsert.phase = .normal .initial ∧
      e.leaveInsert.buffer.document.Splits (x.take (x.length - e.escape.length)) y := by
  obtain ⟨hphase, hsplits⟩ := h
  let start := e.lines.stepBack e.buffer.cursor e.escape.length
  let back := (e.edit [.erase (.between start e.buffer.cursor)]).setCursor start
  have hback : back.phase = .insert typed := hphase
  have hresume : back.resumeNormal = back.enterNormal := by simp only [resumeNormal, hback]
  have hleave : e.leaveInsert = back.enterNormal.mapBuffer Buffer.endUndoGroup := by
    rw [← hresume]
    rfl
  rw [hleave]
  exact ⟨rfl, Buffer.splits_takeBack hsplits e.escape.length⟩

/-- The character that completes the escape sequence is inserted too before that. -/
theorem Inserting.typeKey_of_complete (h : e.Inserting typed x y)
    (hc : (typed.read e.escape c).isComplete e.escape = true) :
    (e.typeKey c).phase = .normal .initial ∧ (e.typeKey c).buffer.document.Splits
      ((x ++ [c]).take ((x ++ [c]).length - e.escape.length)) y := by
  obtain ⟨hphase, hsplits⟩ := h
  let inserted := e.mapBuffer fun b => b.typeText [c]
  have hinserted : inserted.Inserting typed (x ++ [c]) y :=
    ⟨hphase, Buffer.splits_typeText hsplits [c]⟩
  have hkey : e.typeKey c = inserted.leaveInsert := by
    rw [Editor.typeKey, hphase]
    exact if_pos hc
  rw [hkey]
  exact hinserted.leaveInsert

/-- Only the character that completes the escape sequence leads out of insert mode. -/
theorem Inserting.isComplete_of_typeKey (h : e.Inserting typed x y)
    (hleaves : (e.typeKey c).mode ≠ .insert) :
    (typed.read e.escape c).isComplete e.escape = true := by
  cases hc : (typed.read e.escape c).isComplete e.escape with
  | true => rfl
  | false => exact absurd (congrArg Phase.mode (h.typeKey hc).phase) hleaves

/-- Text that never completes the escape sequence is inserted. -/
theorem Inserting.foldl_typeKey (h : e.Inserting .initial x y)
    (hopen : ∀ u, u <+: t → (EscapeReader.ofText e.escape u).isComplete e.escape = false) :
    (t.foldl Editor.typeKey e).Inserting (.ofText e.escape t) (x ++ t) y ∧
      (t.foldl Editor.typeKey e).config = e.config := by
  induction t using List.reverseRecOn with
  | nil => exact ⟨by simpa [EscapeReader.ofText] using h, rfl⟩
  | append_singleton t c ih =>
    obtain ⟨hfront, hconfig⟩ := ih fun u hu => hopen u (hu.trans (List.prefix_append t [c]))
    have hescape : (t.foldl Editor.typeKey e).escape = e.escape := by rw [escape, hconfig]; rfl
    have hlast := hopen _ (List.prefix_refl (t ++ [c]))
    have hkey := hfront.typeKey (c := c) (by rwa [hescape, ← EscapeReader.ofText_snoc])
    rw [hescape, ← EscapeReader.ofText_snoc, List.append_assoc] at hkey
    rw [List.foldl_append]
    exact ⟨hkey, (settings_typeKey _ c).1.trans hconfig⟩

/-- Text that completes the escape sequence with its last character is inserted without it. -/
theorem Inserting.foldl_typeKey_of_complete (h : e.Inserting .initial x y) (hescape : e.escape ≠ [])
    (ht : (EscapeReader.ofText e.escape t).isComplete e.escape = true)
    (hfirst : ∀ u, u <+: t → u ≠ t → (EscapeReader.ofText e.escape u).isComplete e.escape = false) :
    ∃ u, t = u ++ e.escape ∧ (t.foldl Editor.typeKey e).phase = .normal .initial ∧
      (t.foldl Editor.typeKey e).buffer.document.Splits (x ++ u) y := by
  -- What the reader holds at the end is the sequence, and it ends the text.
  have hread := (EscapeReader.isComplete_iff hescape).1 ht
  obtain ⟨u, hu⟩ := hread ▸ EscapeReader.ofText_isSuffix hescape t
  refine ⟨u, hu.symm, ?_⟩
  rcases List.eq_nil_or_concat' t with rfl | ⟨front, c, rfl⟩
  · exact absurd hread.symm hescape
  have hopen : ∀ u, u <+: front → (EscapeReader.ofText e.escape u).isComplete e.escape = false := by
    intro u hu
    refine hfirst u (hu.trans (List.prefix_append front [c])) fun heq => ?_
    have hle := hu.length_le
    rw [heq, List.length_append, List.length_singleton] at hle
    omega
  obtain ⟨hfront, hconfig⟩ := h.foldl_typeKey hopen
  have hescape' : (front.foldl Editor.typeKey e).escape = e.escape := by rw [escape, hconfig]; rfl
  have hkey := hfront.typeKey_of_complete (c := c) (by rwa [hescape', ← EscapeReader.ofText_snoc])
  have hleft :
      (x ++ front ++ [c]).take ((x ++ front ++ [c]).length - e.escape.length) = x ++ u := by
    rw [List.append_assoc, ← hu, ← List.append_assoc, List.length_append, Nat.add_sub_cancel,
      List.take_left]
  rw [hescape', hleft] at hkey
  rw [List.foldl_append]
  exact hkey

/-! ### The key `i` -/

/-- The key `i` enters insert mode where the cursor is. -/
theorem view_typeKey_insertBefore (hphase : e.phase = .normal .initial)
    (hi : e.config.hostCommands? 'i' = none) :
    (e.typeKey 'i').view = { e.view with phase := .insert .initial } := by
  have hop : e.config.operator? 'i' = some ⟨.alone, .mode, .insertBefore⟩ := by
    rw [Config.operator?, hi]; rfl
  have hopens : Command.Opens e.config .alone [] 'i' :=
    ⟨.inl rfl, .of_isDigit rfl, by rw [hop]; rfl⟩
  have hkey : e.typeKey 'i' = e.dispatch { operator := 'i' } :=
    foldl_typeKey_of_spells hphase (.alone hopens)
  let c : Command := { operator := 'i' }
  have hview : (e.prepare c).view = e.view := view_prepare c
  have hphase' : (e.prepare c).phase = .normal .initial := (congrArg View.phase hview).trans hphase
  have hrun (replay : Editor → Editor) (plan : Plan) (h : plan.operator =
      ⟨.alone, .mode, .insertBefore⟩) :
      runPlan replay plan (e.prepare c) = ((e.prepare c).insertBefore, none) := by
    simp [runPlan, Action.run, h]
  have henter : (e.prepare c).insertBefore.view =
      { (e.prepare c).view with phase := .insert .initial } := by
    rw [insertBefore, view_enterInsert, resumeNormal, hphase']
    rfl
  rw [hkey, view_dispatch_once (c := c) hop (by decide) rfl rfl hrun, henter, hview]

/-- Entering insert mode with the key `i`. -/
theorem inserting_typeKey_insertBefore (hphase : e.phase = .normal .initial)
    (hi : e.config.hostCommands? 'i' = none) (hsplits : e.buffer.document.Splits x y) :
    (e.typeKey 'i').Inserting .initial x y ∧ (e.typeKey 'i').config = e.config := by
  have hview := view_typeKey_insertBefore hphase hi
  have hdocument : (e.typeKey 'i').buffer.document = e.buffer.document :=
    congrArg View.document hview
  exact ⟨⟨congrArg View.phase hview, by rwa [hdocument]⟩, congrArg View.config hview⟩

/-- While keys are not interpreted, they are inserted at the cursor. -/
theorem splits_typeKeys_toggleEnabled (henabled : e.enabled = true)
    (hsplits : e.buffer.document.Splits x y) (t : List Char) :
    (e.toggleEnabled.typeKeys t).buffer.document.Splits (x ++ t) y := by
  have htoggle : e.toggleEnabled =
      (e.toggleDetached.mapBuffer fun b => { b.endUndoGroup with cursorStyle := .line }) := by
    simp [toggleEnabled, toggleDetached, mapBuffer, dropPending, henabled]
  have hdisabled : e.toggleEnabled.enabled = false := by
    rw [htoggle]
    exact congrArg (!·) henabled
  have htype : e.toggleEnabled.typeKeys t = e.toggleEnabled.mapBuffer fun b => b.typeText t := by
    rw [typeKeys, hdisabled]
    rfl
  rw [htype]
  exact Buffer.splits_typeText (by rw [htoggle]; exact hsplits) t

end Editor

namespace Session

variable {s : Session}

/-- **Text typed in insert mode.**  In a reachable session that waits for a command in normal mode,
the key `i` and a text insert the text at the cursor, as if keys were not interpreted, so long as
the escape sequence is not complete.  When it is complete for the first time, the text ends with it;
what is typed before it has been inserted, and normal mode waits for a command again.  The sequence
itself, typed at once, is always complete just with its last character. -/
theorem typeKeys_insertBefore (h : s.Reachable) (henabled : s.enabled = true)
    (hmode : s.mode = .normal) (hpending : s.hasPending = false)
    (hi : s.config.hostCommands? 'i' = none) (hescape : s.escape ≠ []) :
    let o := s.lines.offset s.buffer.cursor
    let complete (t : List Char) := (EscapeReader.ofText s.escape t).isComplete s.escape = true
    let after (t : List Char) := s.typeKeys ('i' :: t)
    (∀ t, (∀ u, u <+: t → ¬complete u) →
      (after t).buffer.text = s.buffer.text.take o ++ t ++ s.buffer.text.drop o ∧
      (after t).lines.offset (after t).buffer.cursor = o + t.length ∧
      (after t).phase = .insert (.ofText s.escape t) ∧
      (s.toggleEnabled.typeKeys t).buffer.text = (after t).buffer.text ∧
      (s.toggleEnabled.typeKeys t).buffer.cursor = (after t).buffer.cursor) ∧
    (∀ t, complete t → (∀ u, u <+: t → u ≠ t → ¬complete u) →
      ∃ u, t = u ++ s.escape ∧
        (after t).buffer.text = s.buffer.text.take o ++ u ++ s.buffer.text.drop o ∧
        (after t).lines.offset (after t).buffer.cursor = o + u.length ∧
        (after t).phase = .normal .initial) ∧
    complete s.escape ∧ ∀ u, u <+: s.escape → u ≠ s.escape → ¬complete u := by
  intro o complete after
  obtain ⟨hwf, -, hphase⟩ := h.waiting henabled hmode hpending
  have hsplits : s.buffer.document.Splits (s.buffer.text.take o) (s.buffer.text.drop o) :=
    hwf.splits
  have hlength : (s.buffer.text.take o).length = o := hsplits.offset.symm
  obtain ⟨hinserting, hconfig⟩ := Editor.inserting_typeKey_insertBefore hphase hi hsplits
  have hescape' : (s.typeKey 'i').escape = s.escape := by rw [Editor.escape, hconfig]; rfl
  have hafter (t : List Char) : after t = t.foldl Editor.typeKey (s.typeKey 'i') := by
    simp only [after, Editor.typeKeys, henabled, if_true, List.foldl_cons]
  have hopen {t : List Char} (ht : ∀ u, u <+: t → ¬complete u) :
      (after t).Inserting (.ofText s.escape t) (s.buffer.text.take o ++ t) (s.buffer.text.drop o) ∧
        (after t).config = s.config := by
    have hinserted := hinserting.foldl_typeKey (t := t) fun u hu => by
      rw [hescape']
      exact eq_false_of_ne_true (ht u hu)
    rw [hescape', ← hafter] at hinserted
    exact ⟨hinserted.1, hinserted.2.trans hconfig⟩
  refine ⟨fun t ht => ?_, fun t ht hfirst => ?_, ?_, fun u hu hne => ?_⟩
  · obtain ⟨⟨hphase', hsplits'⟩, -⟩ := hopen ht
    have hdisabled := Editor.splits_typeKeys_toggleEnabled (e := s.toEditor) henabled hsplits t
    refine ⟨hsplits'.text, ?_, hphase', hdisabled.text.trans hsplits'.text.symm,
      hdisabled.cursor_eq.trans hsplits'.cursor_eq.symm⟩
    rw [← hlength, ← List.length_append]
    exact hsplits'.offset
  · obtain ⟨u, rfl, hphase', hsplits'⟩ := hinserting.foldl_typeKey_of_complete (by rwa [hescape'])
      (by rwa [hescape']) fun u hu hne => by
        rw [hescape']
        exact eq_false_of_ne_true (hfirst u hu hne)
    rw [← hafter] at hphase' hsplits'
    rw [hescape'] at *
    refine ⟨u, rfl, hsplits'.text, ?_, hphase'⟩
    rw [← hlength, ← List.length_append]
    exact hsplits'.offset
  · show EscapeReader.isComplete _ _ = true
    rw [EscapeReader.isComplete_iff hescape]
    exact EscapeReader.ofText_of_isPrefix (List.prefix_refl _)
  · show ¬EscapeReader.isComplete _ _ = true
    rw [EscapeReader.isComplete_iff hescape, EscapeReader.ofText_of_isPrefix hu]
    exact hne

/-- A character and a line feed, inserted before the escape sequence. -/
theorem typeKeys_insertBefore_twoLines :
    let s := (start ['a', 'b'] 5 {} {} (.memory none) none).operate (.setCursor ⟨0, 1⟩)
    let x := s.typeKeys ['i', 'x', '\n', 'j', 'k']
    s.escape = ['j', 'k'] ∧ x.buffer.text = ['a', 'x', '\n', 'b'] ∧
      x.lines.offset x.buffer.cursor = 3 ∧ x.phase = .normal .initial := by
  intro s x
  have hs : s.Reachable := .operate (.start ..) _
  have hescape : s.escape = ['j', 'k'] := by decide +kernel
  have hi : s.config.hostCommands? 'i' = none := by decide +kernel
  have hoffset : s.lines.offset s.buffer.cursor = 1 := by decide +kernel
  have htext : s.buffer.text = ['a', 'b'] := by decide +kernel
  have hprefixes : ∀ u ∈ ['x', '\n', 'j', 'k'].inits, u ≠ ['x', '\n', 'j', 'k'] →
      ¬(EscapeReader.ofText ['j', 'k'] u).isComplete ['j', 'k'] = true := by decide
  obtain ⟨-, hcomplete, -⟩ := typeKeys_insertBefore hs rfl rfl rfl hi (by rw [hescape]; decide)
  obtain ⟨u, hu, htext', hoffset', hphase⟩ := hcomplete ['x', '\n', 'j', 'k']
    (by rw [hescape]; decide) fun u hu => by
      rw [hescape]
      exact hprefixes u ((List.mem_inits _ _).2 hu)
  obtain rfl : u = ['x', '\n'] := by
    rw [hescape] at hu
    have hu : ['x', '\n'] ++ ['j', 'k'] = u ++ ['j', 'k'] := hu
    exact (List.append_cancel_right hu).symm
  rw [htext, hoffset] at htext'
  rw [hoffset] at hoffset'
  exact ⟨hescape, htext', hoffset', hphase⟩

end Session

end ModalEditor
