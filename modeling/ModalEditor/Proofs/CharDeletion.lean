import ModalEditor.Proofs.CountProduct
import ModalEditor.Proofs.Planned
import ModalEditor.Proofs.Stretches

/-!
# Deleting characters and putting them back

Characters are deleted by `x`, by `d` and a counted motion, or by `d` over a selection
(`Editor.DeletesChars`).  In each of these ways a stretch of the text is found, taken into the
register and erased (`Editor.DeletesChars.exists_view`), and all three agree on what the stretch is:
the text is the part before it, the part in the register and the part after it.  The cursor is left
between the parts that remain, so that pasting puts the stretch back
(`Session.typeKeys_deletesChars`).
-/

namespace ModalEditor

namespace View

variable {w : View} {s : Span}

/-- Deleting a stretch leaves the cursor between what was before it and what was after it. -/
theorem splits_leaveVisual_delete (hw : w.document.WellFormed) (h : s.Within w.document.lines)
    (hne : s.isEmpty = false) : (w.delete s).leaveVisual.document.Splits
      (w.document.lines.before s.start) (w.document.lines.after s.stop) := by
  have hlines : (w.cut s).document.lines ≠ [] := (Document.wellFormed_erase hw s).1.1
  rw [delete, if_neg (by rw [hne]; decide), document_leaveVisual_select hlines]
  exact Document.splits_erase hw h.1 h.2 s.start_le_stop

/-- A clipboard that is not shared is not pasted from. -/
theorem pasteContent_of_not_sync (h : w.config.syncRegister = false) :
    w.pasteContent = w.register := by
  rw [pasteContent, h]

/-- The stretch is in the register. -/
theorem register_leaveVisual_delete (hne : s.isEmpty = false) :
    (w.delete s).leaveVisual.register = some ⟨w.document.lines.slice s, false⟩ := by
  rw [register_leaveVisual, delete, if_neg (by rw [hne]; decide)]
  rfl

end View

namespace Editor

variable {e x : Editor} {keys : List Char} {target : Option Span} {a b r : List Char}

/-! ### The ways to delete characters -/

/-- The keys that delete characters, and the stretch that they find. -/
inductive DeletesChars (e : Editor) : (keys : List Char) → (target : Option Span) → Prop where
  /-- The character under the cursor. -/
  | cursorChar (h : e.phase = .normal .initial) :
      DeletesChars e ['x'] (some (e.cursorChar?.getD (.point e.buffer.cursor)))
  /-- The stretch that a counted motion covers. -/
  | motion {ds : Digits} {k : Char} {m : MotionKey} {argument : Option Char}
      (h : e.phase = .normal .initial) (hds : ds.IsCount) (hk : MotionKey.ofChar? k = some m)
      (hargument : m.takesArgument = argument.isSome) :
      DeletesChars e ('d' :: (ds ++ k :: argument.toList))
        (m.reach? e.lines e.separators argument (max ds.amount 1) e.buffer.cursor)
  /-- A selection of characters. -/
  | selected {anchor : Position} (h : e.phase = .visual anchor false .initial) :
      DeletesChars e ['d'] (some e.buffer.selection.span)

theorem DeletesChars.phase (h : e.DeletesChars keys target) :
    e.phase = .normal .initial ∨ e.phase.mode = .visual := by
  cases h with
  | cursorChar hphase | motion hphase => exact .inl hphase
  | selected hphase => exact .inr (by rw [hphase]; rfl)

theorem cursorChar?_congr (h : x.view = e.view) : x.cursorChar? = e.cursorChar? := by
  have hdocument : x.buffer.document = e.buffer.document := congrArg View.document h
  rw [cursorChar?, cursorChar?, lines, lines, Buffer.clampedCursor, Buffer.clampedCursor,
    Buffer.lines, Buffer.lines, Buffer.cursor, Buffer.cursor, hdocument]

theorem within_cursorChar (hp : e.lines.InRange e.buffer.cursor) :
    (e.cursorChar?.getD (.point e.buffer.cursor)).Within e.lines := by
  have hcursor : e.buffer.clampedCursor = e.buffer.cursor := Lines.clamp_of_inRange hp
  rw [cursorChar?, hcursor]
  split
  · next h => exact Span.within_between hp ⟨hp.1, h⟩
  · exact Span.within_point hp

/-- Deleting the character under the cursor is deleting its stretch. -/
theorem view_deleteChar (e : Editor) :
    e.deleteChar.view = e.view.delete (e.cursorChar?.getD (.point e.buffer.cursor)) := by
  rw [deleteChar]
  cases h : e.cursorChar? with
  | none => exact (if_pos (beq_self_eq_true _)).symm
  | some s =>
    have hempty : s.isEmpty = false := by
      simp only [cursorChar?] at h
      split at h
      · obtain rfl := Option.some.inj h
        rw [← Bool.not_eq_true, Span.isEmpty_between]
        intro heq
        have := congrArg Position.column heq
        simp at this
      · cases h
    rw [Option.getD_some, View.delete, if_neg (by rw [hempty]; decide), view_setCursor, view_edit,
      view_store]
    rfl

/-- **All ways to delete characters** find a stretch of the text and delete it. -/
theorem DeletesChars.exists_view (h : e.DeletesChars keys target)
    (hw : e.buffer.document.WellFormed)
    (hfree : ∀ k ∈ ['x', 'd', 'P'], e.config.hostCommands? k = none) :
    ∃ s, target = some s ∧ s.Within e.lines ∧
      (keys.foldl typeKey e).view = (e.view.delete s).leaveVisual := by
  have hdelete : e.config.operator? 'd' = some Operator.delete := by
    rw [Config.operator?, hfree 'd' (by simp)]
    rfl
  have hopens : Command.Opens e.config .range [] 'd' := Command.opens_range hdelete rfl
  have hf : Action.Makes .delete fun s x => x.delete (.ofSpan s) := fun _ _ _ _ _ => rfl
  cases h with
  | cursorChar hphase =>
    have hop : e.config.operator? 'x' = some ⟨.alone, .edit, .deleteChar⟩ := by
      rw [Config.operator?, hfree 'x' (by simp)]
      rfl
    obtain ⟨x, hx, hview⟩ := exists_view_typeKey_alone (f := deleteChar) hphase hop rfl
      fun _ _ _ _ _ => rfl
    have hcursor : x.buffer.cursor = e.buffer.cursor := congrArg (·.document.cursor) hx
    rw [view_deleteChar, cursorChar?_congr hx, hcursor, hx] at hview
    exact ⟨_, rfl, within_cursorChar hw.2.2, hview⟩
  | @motion ds k m argument hphase hds hk hargument =>
    obtain ⟨s, hs⟩ := MotionKey.exists_reach? e.lines e.separators
      (fun h => by rw [← hargument, h]) (max ds.amount 1) e.buffer.cursor
    let c : Command := { operator := 'd', motion := some k, motionCount := ds.amount, argument }
    have htarget : e.target? c = some (.ofSpan s) := by
      rw [target?_motion (c := c) hphase rfl (hopens.ne_of_ofChar? hk) hk, hs]
      rfl
    obtain ⟨x, hx, hview⟩ := exists_view_dispatch_range (c := c) hdelete rfl rfl hf htarget
    rw [view_delete, hx] at hview
    refine ⟨s, hs, MotionKey.within_reach? _ hw.2.2 hs, ?_⟩
    rw [foldl_typeKey_of_spells hphase (Command.spells_motion hopens hds hk hargument)]
    exact hview
  | @selected anchor hphase =>
    have htarget := target?_selected hphase { operator := 'd' }
    have hkeys : ['d'].foldl typeKey e = e.dispatch { operator := 'd' } :=
      foldl_typeKey_of_spellsSelected hphase (.range hopens)
    obtain ⟨x, hx, hview⟩ :=
      exists_view_dispatch_range (c := { operator := 'd' }) hdelete rfl rfl hf htarget
    rw [view_delete, hx] at hview
    refine ⟨_, rfl, Span.within_between hw.2.1 hw.2.2, ?_⟩
    rw [hkeys]
    exact hview

/-! ### Putting characters back -/

/-- Characters are pasted before the cursor. -/
theorem splits_paste (h : e.buffer.document.Splits a b)
    (hcontent : e.pasteContent = some ⟨r, false⟩) (after : Bool) :
    (e.paste after).buffer.document.Splits (a ++ r) b := by
  have hcursor : e.buffer.clampedCursor = e.buffer.cursor :=
    Lines.clamp_of_inRange h.wellFormed.cursor
  have hpaste : e.paste after = e.mapBuffer fun b => b.typeText r := by
    rw [paste, hcontent]
    simp only [hcursor]
    rfl
  rw [hpaste]
  exact Buffer.splits_typeText h r

/-- The key `P` puts them there. -/
theorem splits_typeKey_paste (hphase : e.phase = .normal .initial)
    (hfree : e.config.hostCommands? 'P' = none) (hsync : e.config.syncRegister = false)
    (hregister : e.register = some ⟨r, false⟩) (h : e.buffer.document.Splits a b) :
    (e.typeKey 'P').buffer.document.Splits (a ++ r) b := by
  have hop : e.config.operator? 'P' = some ⟨.alone, .edit, .pasteBefore⟩ := by
    rw [Config.operator?, hfree]
    rfl
  obtain ⟨x, hx, hview⟩ := exists_view_typeKey_alone (f := fun x => x.paste false) hphase hop rfl
    fun _ _ _ _ _ => rfl
  have hcontent : x.pasteContent = some ⟨r, false⟩ := by
    rw [pasteContent_eq, hx, View.pasteContent_of_not_sync hsync]
    exact hregister
  have hphase : (x.paste false).view.phase = .normal .initial :=
    (sameMode_paste x false).phase.trans ((congrArg View.phase hx).trans hphase)
  have hsplits : x.buffer.document.Splits a b := by
    rwa [show x.buffer.document = e.buffer.document from congrArg View.document hx]
  rw [View.leaveVisual_of_ne (View.mode_ne_of_normal hphase)] at hview
  rw [show (e.typeKey 'P').buffer.document = (x.paste false).buffer.document from
    congrArg View.document hview]
  exact splits_paste hsplits hcontent false

end Editor

namespace Session

variable {s : Session} {keys : List Char} {target : Option Span}

/-- **Deleting characters conserves the text, and `P` puts them back.**  In a reachable session
whose register is not shared, a deletion of characters finds a stretch `r` of the text `a ++ r ++ b`
and leaves `a ++ b`, with the cursor between the two and `r` in the register; pasting then restores
the text, with the cursor after `r`.  If the stretch is empty nothing happens to the text and the
register. -/
theorem typeKeys_deletesChars (h : s.Reachable) (henabled : s.enabled = true)
    (hsync : s.config.syncRegister = false)
    (hfree : ∀ k ∈ ['x', 'd', 'P'], s.config.hostCommands? k = none)
    (hkeys : s.toEditor.DeletesChars keys target) :
    let x := s.typeKeys keys
    let y := x.typeKeys ['P']
    ∃ span, target = some span ∧
      (span.isEmpty = false → ∃ a r b : List Char,
        s.buffer.text = a ++ r ++ b ∧ r ≠ [] ∧
        a.length = s.lines.offset span.start ∧ a.length + r.length = s.lines.offset span.stop ∧
        x.buffer.text = a ++ b ∧ x.lines.offset x.buffer.cursor = a.length ∧
        x.mode = .normal ∧ x.register = some ⟨r, false⟩ ∧
        y.buffer.text = s.buffer.text ∧
        y.lines.offset y.buffer.cursor = a.length + r.length) ∧
      (span.isEmpty = true → x.buffer.text = s.buffer.text ∧ x.register = s.register) := by
  intro x y
  have hw : s.buffer.document.WellFormed := h.buffer_wellFormed.document
  obtain ⟨span, htarget, hwithin, hview⟩ := hkeys.exists_view hw hfree
  have hx : x = keys.foldl Editor.typeKey s.toEditor := by
    simp only [x, Editor.typeKeys, henabled, if_true]
  rw [← hx] at hview
  refine ⟨span, htarget, fun hne => ?_, fun hempty => ?_⟩
  · let a := s.lines.before span.start
    let r := s.lines.slice span
    let b := s.lines.after span.stop
    have htext : s.buffer.text = a ++ r ++ b := hwithin.text_eq
    have hlength : a.length + r.length = (a ++ r).length := List.length_append.symm
    have hstop : (a ++ r).length = s.lines.offset span.stop := by
      rw [hwithin.before_append_slice, Lines.length_before hwithin.2]
    have hdeleted : x.buffer.document.Splits a b := by
      rw [show x.buffer.document = _ from congrArg View.document hview]
      exact View.splits_leaveVisual_delete hw hwithin hne
    have hregister : x.register = some ⟨r, false⟩ :=
      (congrArg View.register hview).trans (View.register_leaveVisual_delete hne)
    have hphase : x.phase = .normal .initial := by
      refine (congrArg View.phase hview).trans (View.phase_leaveVisual ?_)
      rw [View.phase_delete]
      exact hkeys.phase
    -- Pasting puts the stretch before the cursor.
    have hsettings := Editor.settings_foldl_typeKey keys s.toEditor
    have hxenabled : x.enabled = true := by rw [hx, hsettings.2, henabled]
    have hxconfig : x.config = s.config := by rw [hx, hsettings.1]
    have hy : y = x.typeKey 'P' := by
      simp only [y, Editor.typeKeys, hxenabled, if_true, List.foldl_cons, List.foldl_nil]
    have hpasted : y.buffer.document.Splits (a ++ r) b := by
      rw [hy]
      exact Editor.splits_typeKey_paste hphase (by rw [hxconfig]; exact hfree 'P' (by simp))
        (by rw [hxconfig, hsync]) hregister hdeleted
    exact ⟨a, r, b, htext, hwithin.slice_ne_nil hw.1 hne, Lines.length_before hwithin.1,
      hlength.trans hstop, hdeleted.text, hdeleted.offset, congrArg Phase.mode hphase, hregister,
      hpasted.text.trans htext.symm, hpasted.offset.trans hlength.symm⟩
  · rw [View.delete, if_pos hempty] at hview
    exact ⟨congrArg Lines.text ((congrArg (·.document.lines) hview).trans
        (View.lines_leaveVisual _)),
      (congrArg View.register hview).trans (View.register_leaveVisual _)⟩

/-- The text between two brackets, deleted and put back. -/
theorem typeKeys_deletesChars_brackets :
    let s := (start ['a', '(', 'b', 'c', ')'] 5 { syncRegister := false } {} (.memory none)
      none).operate (.setCursor ⟨0, 2⟩)
    let x := s.typeKeys ['d', 'i', '(']
    let y := x.typeKeys ['P']
    x.buffer.text = ['a', '(', ')'] ∧ x.register = some ⟨['b', 'c'], false⟩ ∧
      y.buffer.text = s.buffer.text ∧ y.lines.offset y.buffer.cursor = 4 := by
  intro s x y
  have hs : s.Reachable := .operate (.start ..) _
  have henabled : s.enabled = true := rfl
  have hphase : s.phase = .normal .initial := rfl
  have hsync : s.config.syncRegister = false := by decide +kernel
  have hfree : ∀ k ∈ ['x', 'd', 'P'], s.config.hostCommands? k = none := by
    intro k hk
    simp only [List.mem_cons, List.not_mem_nil, or_false] at hk
    rcases hk with rfl | rfl | rfl <;> decide +kernel
  have htarget : MotionKey.inner.reach? s.lines s.separators (some '(') 1 s.buffer.cursor =
      some (.between ⟨0, 2⟩ ⟨0, 4⟩) := by decide +kernel
  have hoffset : s.lines.offset ⟨0, 4⟩ = 4 := by decide +kernel
  have htext : x.buffer.text = ['a', '(', ')'] := by decide +kernel
  have hregister : x.register = some ⟨['b', 'c'], false⟩ := by decide +kernel
  clear_value s
  have hkeys : s.toEditor.DeletesChars ('d' :: ([] ++ 'i' :: (some '(').toList)) _ :=
    .motion hphase (.inl rfl) rfl rfl
  obtain ⟨span, hspan, hdelete, -⟩ := typeKeys_deletesChars hs henabled hsync hfree hkeys
  obtain rfl : span = .between ⟨0, 2⟩ ⟨0, 4⟩ := Option.some.inj (hspan.symm.trans htarget)
  obtain ⟨a, r, b, -, -, -, hstop, -, -, -, -, hy, hcursor⟩ := hdelete (by decide)
  exact ⟨htext, hregister, hy, (hcursor.trans hstop).trans hoffset⟩

end Session

end ModalEditor
