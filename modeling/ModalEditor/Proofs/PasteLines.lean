import ModalEditor.Proofs.Clippings
import ModalEditor.Proofs.VisualSpelling

/-!
# Copying lines and pasting them

Lines are copied by `y` over a line-wise selection or by `yy` (`Editor.CopiesLines`).  Copying fills
the register, and moving about leaves it as it is (`View.Holds`), so that `p` puts the lines below
the line of the cursor, wherever that is by then (`Editor.lines_copy_paste`).

What is pasted is the text of the lines without the line breaks at its end.  It is the lines
themselves if the last of them ends in no carriage return and is not empty, or stands alone.
-/

namespace ModalEditor

namespace Lines

variable {ls : Lines} {first last n : Nat}

/-- Lines `first` to `last`. -/
def block (ls : Lines) (first last : Nat) : Lines := (ls.take (last + 1)).drop first

theorem map_line_range' (h : last < ls.length) :
    (List.range' first (last + 1 - first)).map ls.line = ls.block first last := by
  apply List.ext_getElem
  · simp only [block, List.length_map, List.length_range', List.length_drop, List.length_take]
    omega
  · intro i hi _
    simp only [List.length_map, List.length_range'] at hi
    have hline : first + i < ls.length := by omega
    simp [block, line_eq_getElem hline]

/-- The block ends with its last line. -/
theorem block_eq_append (hle : first ≤ last) (h : last < ls.length) :
    ls.block first last = (ls.take last).drop first ++ [ls.line last] := by
  have hlength : first ≤ (ls.take last).length := by
    rw [List.length_take]
    omega
  rw [block, List.take_succ_eq_append_getElem h, List.drop_append_of_le_length hlength,
    line_eq_getElem h]

/-- A line feed and a text, inserted at the end of a line, are lines below it. -/
theorem insertAt_lineEnd (hw : ls.WellFormed) (h : n < ls.length) (t : List Char) :
    ls.insertAt (ls.lineEnd n) ('\n' :: t) = ls.take (n + 1) ++ ofText t ++ ls.drop (n + 1) := by
  have hline := notMem_line hw n
  have hwf : WellFormed (ls.line n :: ofText t) := by
    refine ⟨by simp, fun l hl => ?_⟩
    rcases List.mem_cons.1 hl with rfl | hl
    · exact hline
    · exact (wellFormed_ofText t).2 l hl
  have hsplit : ofText (ls.line n ++ '\n' :: t) = ls.line n :: ofText t := by
    rw [← ofText_text hwf, text_cons _ (ofText_ne_nil t), text_ofText]
  have hfull : (ls.line n).take (ls.lineLength n) = ls.line n := List.take_length
  have hrest : (ls.line n).drop (ls.lineLength n) = [] := List.drop_length
  simp only [insertAt, lineEnd, hfull, hrest, List.append_nil, hsplit]
  rw [List.take_succ_eq_append_getElem h, line_eq_getElem h]
  simp only [List.append_assoc, List.cons_append, List.nil_append]

/-- Whole lines are nothing only if the text is nothing. -/
theorem isEmpty_wholeLines (hle : first ≤ last) (h : last < ls.length) (hne : ls ≠ [[]]) :
    (ls.wholeLines first last).isEmpty = false := by
  have hlast : min last ls.lastLine = last := by
    simp only [lastLine]
    omega
  simp only [← Bool.not_eq_true, wholeLines, hlast, Nat.min_eq_left hle]
  split
  · rw [Span.isEmpty_between]
    intro heq
    have := congrArg Position.line heq
    dsimp only at this
    omega
  · split
    · rw [Span.isEmpty_between]
      intro heq
      have := congrArg Position.line heq
      simp only [lineEnd] at this
      omega
    · rw [Span.isEmpty_between]
      intro heq
      -- The lines are the whole text, and it is a single empty line.
      have hline := congrArg Position.line heq
      have hcolumn := congrArg Position.column heq
      simp only [lineEnd] at hline hcolumn
      obtain rfl : last = 0 := by omega
      obtain ⟨l, rfl⟩ := List.length_eq_one_iff.1 (show ls.length = 1 by omega)
      have hl : l = [] := List.length_eq_zero_iff.1 hcolumn.symm
      exact hne (by rw [hl])

end Lines

/-! ### The register -/

namespace View

variable (v : View)

/-- What there is to paste. -/
def pasteContent : Option Clipping :=
  match v.config.syncRegister, v.clipboard.read with
  | true, some (c :: cs) => some (.decode (c :: cs))
  | _, _ => v.register

variable {v}

/-- What is stored is there to paste, if it survives the way over a clipboard. -/
theorem pasteContent_store {c : Clipping} (h : Clipping.decode c.encode = c) :
    (v.store c).pasteContent = some c := by
  unfold pasteContent store
  dsimp only
  cases v.config.syncRegister with
  | false => rfl
  | true =>
    simp only [if_true]
    cases v.clipboard with
    | unreachable => rfl
    | memory text =>
      simp only [Clipboard.write, Clipboard.read]
      cases hencode : c.encode with
      | nil => rfl
      | cons d ds => exact congrArg some (hencode ▸ h)

/-- In normal mode with the cursor at `p`, there is `content` to paste. -/
structure Holds (ls : Lines) (config : Config) (content : Clipping) (p : Position) (v : View) :
    Prop where
  lines : v.document.lines = ls
  cursor : v.document.cursor = p
  config : v.config = config
  phase : v.phase = .normal .initial
  content : v.pasteContent = some content

end View

theorem View.exists_holds_leaveVisual {v : View} {content : Clipping} (hw : v.document.WellFormed)
    (hphase : v.phase = .normal .initial ∨ v.phase.mode = .visual)
    (hcontent : v.pasteContent = some content) :
    ∃ p, v.document.lines.InRange p ∧
      Holds v.document.lines v.config content p v.leaveVisual := by
  rcases hphase with hphase | hvisual
  · rw [leaveVisual_of_ne (mode_ne_of_normal hphase)]
    exact ⟨v.document.cursor, hw.2.2, rfl, rfl, rfl, hphase, hcontent⟩
  · rw [leaveVisual_of_visual hvisual]
    exact ⟨_, Lines.inRange_clamp hw.1.1 _, rfl, rfl, rfl, rfl, hcontent⟩

/-- Moving leaves alone what there is to paste. -/
theorem roams_holds (ls : Lines) (config : Config) (content : Clipping) :
    Roams ls config .normal (View.Holds ls config content) where
  lines h := h.lines
  cursor h := h.cursor
  config h := h.config
  mode h := by rw [h.phase]; rfl
  moveTo := by
    intro p q e h hq
    have hlines : e.lines = ls := h.lines
    have hphase : e.phase = .normal .initial := h.phase
    rw [← hlines] at hq
    have hselection : e.selectionAt (e.lines.clamp q) = .caret q := by
      rw [Lines.clamp_of_inRange hq, Editor.selectionAt, hphase]
    rw [Editor.view_moveTo, hselection]
    exact ⟨h.lines, Lines.clamp_of_inRange hq, h.config, h.phase, h.content⟩

namespace Editor

variable {e : Editor} {keys : List Char} {first last : Nat} {ls : Lines} {config : Config}
variable {content : Clipping} {p : Position} {op : Char}

theorem pasteContent_eq (e : Editor) : e.pasteContent = e.view.pasteContent := rfl

/-! ### Operators on whole lines -/

/-- The keys that give the operator `op` lines `first` to `last` to work on. -/
inductive OnLines (e : Editor) (op : Char) : (keys : List Char) → (first last : Nat) → Prop where
  /-- Over a line-wise selection. -/
  | selected {anchor : Position} (h : e.phase = .visual anchor true .initial) :
      OnLines e op [op] e.buffer.selection.span.start.line e.buffer.selection.span.stop.line
  /-- At the cursor, in normal mode. -/
  | wholeLine (h : e.phase = .normal .initial) :
      OnLines e op [op, op] e.buffer.cursor.line e.buffer.cursor.line

theorem OnLines.phase (h : e.OnLines op keys first last) :
    e.phase = .normal .initial ∨ e.phase.mode = .visual := by
  cases h with
  | selected hphase => exact .inr (by rw [hphase]; rfl)
  | wholeLine hphase => exact .inl hphase

theorem OnLines.range (h : e.OnLines op keys first last) (hw : e.buffer.document.WellFormed) :
    first ≤ last ∧ last < e.lines.length := by
  obtain ⟨-, hanchor, hactive⟩ := hw
  cases h with
  | selected =>
    refine ⟨?_, ?_⟩
    · have hle := e.buffer.selection.span.start_le_stop
      rw [Position.le_iff] at hle
      omega
    · rw [Selection.span, Span.between]
      split
      · exact hactive.1
      · exact hanchor.1
  | wholeLine => exact ⟨Nat.le_refl _, hactive.1⟩

/-- The keys dispatch one command, which runs the operator on those lines. -/
theorem OnLines.exists_view {action : Action} {g : Target → Editor → Editor}
    (h : e.OnLines op keys first last)
    (hop : e.config.operator? op = some ⟨.range, .edit, action⟩)
    (hg : ∀ replay n t argument x,
      Action.run replay ⟨⟨.range, .edit, action⟩, n, t, argument⟩ x = (g t x, none)) :
    ∃ x, x.view = e.view ∧
      (keys.foldl typeKey e).view = (g (.ofLines e.lines first last) x).view.leaveVisual := by
  have hopens : Command.Opens e.config .range [] op := Command.opens_range hop rfl
  cases h with
  | @selected anchor hphase =>
    have hkeys : [op].foldl typeKey e = e.dispatch { operator := op } :=
      foldl_typeKey_of_spellsSelected hphase (.range hopens)
    rw [hkeys]
    exact exists_view_dispatch_target hop rfl rfl (fun _ _ _ _ => hg ..) (target?_selected hphase _)
  | wholeLine hphase =>
    have hkeys : [op, op].foldl typeKey e = e.dispatch { operator := op, motion := some op } :=
      foldl_typeKey_of_spells hphase (.wholeLine hopens (.inl rfl))
    rw [hkeys]
    exact exists_view_dispatch_target hop rfl rfl (fun _ _ _ _ => hg ..)
      (target?_wholeLine hphase rfl)

/-! ### Copying lines -/

/-- The keys that copy lines `first` to `last`. -/
inductive CopiesLines (e : Editor) : (keys : List Char) → (first last : Nat) → Prop where
  /-- Over a line-wise selection. -/
  | selected {anchor : Position} (h : e.phase = .visual anchor true .initial) :
      CopiesLines e ['y'] e.buffer.selection.span.start.line e.buffer.selection.span.stop.line
  /-- At the cursor, in normal mode. -/
  | wholeLine (h : e.phase = .normal .initial) :
      CopiesLines e ['y', 'y'] e.buffer.cursor.line e.buffer.cursor.line

theorem CopiesLines.onLines (h : e.CopiesLines keys first last) : e.OnLines 'y' keys first last := by
  cases h with
  | selected hphase => exact .selected hphase
  | wholeLine hphase => exact .wholeLine hphase

theorem view_yank_lines {t : Target} (hlineWise : t.lineWise = true)
    (hspan : t.span.isEmpty = false) : (e.yank t).view = e.view.store (e.clipping t) := by
  simp [yank, hlineWise, hspan]

theorem clipping_ofLines (hlast : last < e.lines.length) :
    e.clipping (.ofLines e.lines first last) = .take (e.lines.block first last).text true := by
  rw [clipping, ← Lines.map_line_range' hlast]
  rfl

/-- Copying lines leaves them there to paste. -/
theorem CopiesLines.exists_holds (h : e.CopiesLines keys first last)
    (hw : e.buffer.document.WellFormed) (hfree : e.config.hostCommands? 'y' = none)
    (hne : e.lines ≠ [[]]) :
    first ≤ last ∧ last < e.lines.length ∧ ∃ p, e.lines.InRange p ∧
      View.Holds e.lines e.config (.take (e.lines.block first last).text true) p
        (keys.foldl typeKey e).view := by
  obtain ⟨hle, hlast⟩ := h.onLines.range hw
  have hop : e.config.operator? 'y' = some ⟨.range, .edit, .yank⟩ := by
    rw [Config.operator?, hfree]
    rfl
  obtain ⟨x, hx, hview⟩ := h.onLines.exists_view (g := fun t x => x.yank t) hop
    fun _ _ _ _ _ => rfl
  have hxlines : x.lines = e.lines := congrArg (·.document.lines) hx
  have hclipping : x.clipping (.ofLines e.lines first last) =
      .take (e.lines.block first last).text true := by
    rw [← hxlines] at hlast ⊢
    exact clipping_ofLines hlast
  rw [view_yank_lines rfl (Lines.isEmpty_wholeLines hle hlast hne), hx, hclipping] at hview
  refine ⟨hle, hlast, ?_⟩
  rw [hview]
  exact View.exists_holds_leaveVisual
    (v := e.view.store (.take (e.lines.block first last).text true)) hw h.onLines.phase
    (View.pasteContent_store
      ((Clipping.decode_encode_iff (Clipping.isTaken_take _ _)).2 fun h => Bool.noConfusion h.1))

/-! ### Moving about -/

/-- The keys of some movements. -/
inductive Movements (config : Config) : List Char → Prop where
  | nil : Movements config []
  | cons {ds : Digits} {t : Travel} {k : Char} {keys : List Char} (hds : ds.IsCount)
      (ht : t.Spells k) (hfree : config.hostCommands? k = none) (h : Movements config keys) :
      Movements config (ds ++ k :: t.argument.toList ++ keys)

/-- Movements lead on to a place where there is the same to paste. -/
theorem Movements.exists_holds (h : Movements config keys) (hp : ls.InRange p)
    (he : View.Holds ls config content p e.view) :
    ∃ q, ls.InRange q ∧ View.Holds ls config content q (keys.foldl typeKey e).view := by
  induction h generalizing e p with
  | nil => exact ⟨p, hp, he⟩
  | @cons ds t k keys hds ht hfree _ ih =>
    have hconfig : e.config = config := he.config
    have hk : e.config.operator? k = some t.operator := by
      rw [hconfig, Config.operator?, hfree]
      exact ht.2
    have hmove := at_dispatch_travel (roams_holds ls config content)
      (c := { operator := k, count := ds.amount, argument := t.argument }) hp (hconfig ▸ hk) rfl rfl
      he
    rw [List.foldl_append, foldl_typeKey_of_spells he.phase (Travel.spells_movement hk hds ht)]
    exact ih (Function.Iterate.rec ls.InRange hp (t.directed ls _).1 _) hmove

/-! ### Pasting lines -/

/-- Whole lines are put below the line of the cursor. -/
theorem lines_paste_after (hpaste : e.pasteContent = some content)
    (hcontent : content.lineWise = true) (hw : e.lines.WellFormed)
    (hp : e.lines.InRange e.buffer.cursor) :
    (e.paste true).lines = e.lines.take (e.buffer.cursor.line + 1) ++ Lines.ofText content.text ++
      e.lines.drop (e.buffer.cursor.line + 1) := by
  let n := e.buffer.cursor.line
  have hcursor : e.buffer.clampedCursor = e.buffer.cursor := Lines.clamp_of_inRange hp
  have hend : e.lines.clamp (e.lines.lineEnd n) = e.lines.lineEnd n :=
    Lines.clamp_of_inRange ⟨hp.1, Nat.le_refl _⟩
  have hinsert : (e.paste true).lines =
      e.lines.insertAt (e.lines.clamp (e.lines.lineEnd n)) ('\n' :: content.text) := by
    rw [paste, hpaste]
    simp only [hcontent, if_true, hcursor]
    rfl
  rw [hinsert, hend, Lines.insertAt_lineEnd hw hp.1]

/-- The key `p` puts them there. -/
theorem lines_typeKey_paste (he : View.Holds ls config content p e.view) (hw : ls.WellFormed)
    (hp : ls.InRange p) (hfree : config.hostCommands? 'p' = none)
    (hcontent : content.lineWise = true) :
    (e.typeKey 'p').lines =
      ls.take (p.line + 1) ++ Lines.ofText content.text ++ ls.drop (p.line + 1) := by
  have hconfig : e.config = config := he.config
  have hop : e.config.operator? 'p' = some ⟨.alone, .edit, .pasteAfter⟩ := by
    rw [hconfig, Config.operator?, hfree]
    rfl
  obtain ⟨x, hx, hkey⟩ := exists_view_typeKey_alone (f := fun x => x.paste true) he.phase hop rfl
    fun _ _ _ _ _ => rfl
  have hlines : (e.typeKey 'p').lines = (x.paste true).lines :=
    (congrArg (·.document.lines) hkey).trans (View.lines_leaveVisual _)
  have hpaste : x.pasteContent = some content := by
    rw [pasteContent_eq, hx]
    exact he.content
  have hxlines : x.lines = ls := (congrArg (·.document.lines) hx).trans he.lines
  have hxcursor : x.buffer.cursor = p := (congrArg (·.document.cursor) hx).trans he.cursor
  rw [← hxlines] at hw hp ⊢
  rw [← hxcursor] at hp ⊢
  rw [hlines, lines_paste_after hpaste hcontent hw hp]

/-- What is cut off some lines when they are copied. -/
theorem ofText_clipping_block (hw : ls.WellFormed) (hle : first ≤ last) (h : last < ls.length) :
    Lines.ofText (Clipping.take (ls.block first last).text true).text = ls.block first last ↔
      (first < last → ls.line last ≠ []) ∧ (ls.line last).getLast? ≠ some '\r' := by
  have hbefore : (ls.take last).drop first ≠ [] ↔ first < last := by
    rw [Ne, List.drop_eq_nil_iff, List.length_take]
    omega
  have hwf : (ls.block first last).WellFormed := by
    refine ⟨?_, fun l hl => hw.2 l (List.mem_of_mem_take (List.mem_of_mem_drop hl))⟩
    rw [Lines.block_eq_append hle h]
    simp
  have htext : Lines.ofText (Clipping.take (ls.block first last).text true).text =
      ls.block first last ↔
        (Clipping.take (ls.block first last).text true).text = (ls.block first last).text := by
    constructor
    · intro h
      have := congrArg Lines.text h
      rwa [Lines.text_ofText] at this
    · intro h
      rw [h, Lines.ofText_text hwf]
  rw [htext, ← hbefore, Lines.block_eq_append hle h]
  exact Clipping.text_take_lines_iff _ (Lines.notMem_line hw last)

/-- **Copying lines and pasting them.**  The key `y` over a line-wise selection, or `yy`, then some
movements and the key `p`: the text of the lines without the line breaks at its end is put below
the line of the cursor.  These are the lines themselves if the last of them ends in no carriage
return and is not empty, or stands alone, and not otherwise. -/
theorem lines_copy_paste (hw : e.buffer.document.WellFormed) (henabled : e.enabled = true)
    (hne : e.lines ≠ [[]]) (hcopy : e.CopiesLines keys first last) {moves : List Char}
    (hmoves : Movements e.config moves) (hy : e.config.hostCommands? 'y' = none)
    (hpaste : e.config.hostCommands? 'p' = none) :
    let x := e.typeKeys (keys ++ moves)
    let n := x.buffer.cursor.line + 1
    let copied := e.lines.block first last
    let pasted := Lines.ofText (Clipping.take copied.text true).text
    (x.typeKeys ['p']).lines = e.lines.take n ++ pasted ++ e.lines.drop n ∧
      (pasted = copied ↔
        (first < last → e.lines.line last ≠ []) ∧ (e.lines.line last).getLast? ≠ some '\r') := by
  intro x n copied pasted
  obtain ⟨hle, hlast, p, hp, hcopied⟩ := hcopy.exists_holds hw hy hne
  obtain ⟨q, hq, hmoved⟩ := hmoves.exists_holds hp hcopied
  have hx : x = moves.foldl typeKey (keys.foldl typeKey e) := by
    simp only [x, typeKeys, henabled, if_true, List.foldl_append]
  have hxenabled : x.enabled = true :=
    Eq.trans (by simp only [x, typeKeys, henabled, if_true, settings_foldl_typeKey]) henabled
  rw [← hx] at hmoved
  have hcursor : x.buffer.cursor = q := hmoved.cursor
  have htyped : x.typeKeys ['p'] = x.typeKey 'p' := by
    simp only [typeKeys, hxenabled, if_true, List.foldl_cons, List.foldl_nil]
  refine ⟨?_, ofText_clipping_block hw.1 hle hlast⟩
  rw [htyped, lines_typeKey_paste hmoved hw.1 hq hpaste rfl]
  simp only [n, hcursor]
  rfl

/-- An empty line and another, copied and pasted below the first one. -/
theorem lines_copy_paste_emptyFirst :
    let e := (Session.start ['\n', 'a'] 5 {} {} (.memory none) none).typeKeys ['V', 'j']
    ((e.typeKeys ['y', 'k']).typeKeys ['p']).lines = [[], [], ['a'], ['a']] := by
  intro e
  have hw : e.buffer.WellFormed := wellFormed_typeKeys (Session.wellFormed_start ..) _
  have henabled : e.enabled = true := by decide +kernel
  have hphase : e.phase = .visual ⟨0, 0⟩ true .initial := by decide +kernel
  have hlines : e.lines = [[], ['a']] := by decide +kernel
  have hstart : e.buffer.selection.span.start.line = 0 := by decide +kernel
  have hstop : e.buffer.selection.span.stop.line = 1 := by decide +kernel
  have hcursor : (e.typeKeys ['y', 'k']).buffer.cursor.line = 0 := by decide +kernel
  have hy : e.config.hostCommands? 'y' = none := by decide +kernel
  have hk : e.config.hostCommands? 'k' = none := by decide +kernel
  have hp : e.config.hostCommands? 'p' = none := by decide +kernel
  clear_value e
  have hcopy := CopiesLines.selected hphase
  rw [hstart, hstop] at hcopy
  have hcount : Digits.IsCount [] := .inl rfl
  have hmoves : Movements e.config ['k'] :=
    .cons hcount (t := .plain .up) ⟨rfl, rfl⟩ hk .nil
  obtain ⟨hpaste, -⟩ := lines_copy_paste hw.document henabled (by rw [hlines]; decide) hcopy hmoves
    hy hp
  simp only [List.cons_append, List.nil_append, hcursor, hlines] at hpaste
  rw [hpaste]
  decide

/-- A line and an empty one after it, copied and pasted: the empty line is lost. -/
theorem not_lines_copy_paste_emptyLast :
    let e := (Session.start ['a', '\n'] 5 {} {} (.memory none) none).typeKeys ['V', 'j']
    let x := e.typeKeys ['y']
    e.CopiesLines ['y'] 0 1 ∧ e.lines = [['a'], []] ∧ x.buffer.cursor = ⟨0, 0⟩ ∧
      (x.typeKeys ['p']).lines = [['a'], ['a'], []] ∧
      (x.typeKeys ['p']).lines ≠ e.lines.take 1 ++ e.lines.block 0 1 ++ e.lines.drop 1 := by
  intro e x
  have hphase : e.phase = .visual ⟨0, 0⟩ true .initial := by decide +kernel
  have hstart : e.buffer.selection.span.start.line = 0 := by decide +kernel
  have hstop : e.buffer.selection.span.stop.line = 1 := by decide +kernel
  have hcopy : e.CopiesLines ['y'] 0 1 := by
    have := CopiesLines.selected hphase
    rwa [hstart, hstop] at this
  exact ⟨hcopy, by decide +kernel, by decide +kernel, by decide +kernel, by decide +kernel⟩

end Editor

end ModalEditor
