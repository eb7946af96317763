import ModalEditor.Proofs.LineEdits
import ModalEditor.Proofs.Outward
import ModalEditor.Proofs.Stretches

/-!
# Indentation

The operator `>` puts one step of indentation in front of each line with text that its range
touches, and `<` takes one step from each of them, or as much of one as there is.  Both change the
lines in one batch (`Editor.edit_block`), and taking back what has been put there restores the lines
(`Editor.lines_dedent_indent`).

An operator that changes the lines it touches (`Editor.ChangesBlock`) does so however its range is
given (`Editor.Touches`), as at most one step of the undo history (`Editor.typeKeys_indentation`).
-/

namespace ModalEditor

namespace Lines

variable {l : List Char} {width : Nat}

/-- A line with a step of indentation in front; an empty line stays empty. -/
def indentLine (width : Nat) (l : List Char) : List Char :=
  if l = [] then [] else List.replicate width ' ' ++ l

/-- A line without a step of indentation: without a tab at its start, or without its first spaces up
to the width of a step. -/
def dedentLine (width : Nat) (l : List Char) : List Char :=
  if l.head? = some '\t' then l.drop 1 else l.drop (min width (l.takeWhile (· == ' ')).length)

theorem dedentLine_eq_drop (width : Nat) (l : List Char) :
    dedentLine width l = l.drop (Editor.indentation width l) := by
  rw [dedentLine, Editor.indentation, ← List.take_takeWhile, List.length_take]
  split <;> rfl

theorem dedentLine_nil (width : Nat) : dedentLine width [] = [] := by
  rw [dedentLine_eq_drop, List.drop_nil]

theorem indentLine_eq_self_iff (hwidth : 1 ≤ width) : indentLine width l = l ↔ l = [] := by
  rw [indentLine]
  constructor
  · intro h
    by_contra hne
    rw [if_neg hne] at h
    have hlength := congrArg List.length h
    rw [List.length_append, List.length_replicate] at hlength
    omega
  · intro h
    rw [if_pos h, h]

theorem dedentLine_eq_self_iff : dedentLine width l = l ↔ Editor.indentation width l = 0 := by
  rw [dedentLine_eq_drop]
  constructor
  · intro h
    have hlength := congrArg List.length h
    rw [List.length_drop] at hlength
    have hle : Editor.indentation width l ≤ l.length := by
      rw [Editor.indentation]
      split
      · next htab => cases l <;> simp_all
      · exact Nat.le_trans (List.takeWhile_prefix _).length_le (List.length_take_le' ..)
    omega
  · intro h
    rw [h, List.drop_zero]

/-- What is put in front of a line can be taken back. -/
theorem dedentLine_indentLine (hwidth : 1 ≤ width) (l : List Char) :
    dedentLine width (indentLine width l) = l := by
  by_cases hl : l = []
  · rw [indentLine, if_pos hl, dedentLine_nil, hl]
  · obtain ⟨n, rfl⟩ := Nat.exists_eq_succ_of_ne_zero (Nat.pos_iff_ne_zero.1 hwidth)
    have hspaces : (List.replicate (n + 1) ' ' ++ l).takeWhile (· == ' ') =
        List.replicate (n + 1) ' ' ++ l.takeWhile (· == ' ') :=
      List.takeWhile_append_of_pos fun c hc => by
        rw [List.eq_of_mem_replicate hc, beq_self_eq_true]
    have hhead : (List.replicate (n + 1) ' ' ++ l).head? ≠ some '\t' := by
      rw [List.replicate_succ, List.cons_append, List.head?_cons]
      decide
    rw [indentLine, if_neg hl, dedentLine, if_neg hhead, hspaces, List.length_append,
      List.length_replicate, Nat.min_eq_left (Nat.le_add_right ..), List.drop_left' (by simp)]

end Lines

namespace Editor

variable {e : Editor} {t : Target}

theorem history_landOnText (e : Editor) (n : Nat) :
    (e.landOnText n).buffer.history = e.buffer.history := by
  rw [landOnText]
  split <;> rfl

theorem wellFormed_landOnText (h : e.buffer.document.WellFormed) (n : Nat) :
    (e.landOnText n).buffer.document.WellFormed := by
  rw [landOnText]
  split
  · exact Document.wellFormed_select h.1 _
  · exact h

theorem wellFormed_edit (h : e.buffer.document.WellFormed) (es : List Edit) :
    (e.edit es).buffer.document.WellFormed := by
  have hdocument : (e.edit es).buffer.document = e.buffer.document.applyAll es :=
    congrArg View.document (e.view_edit es)
  rw [hdocument]
  exact Document.wellFormed_applyAll h es

theorem register_landOnText (e : Editor) (n : Nat) : (e.landOnText n).register = e.register := by
  rw [landOnText]
  split <;> rfl

/-- The operator changes the lines it touches by `f`, which may depend on the width of a step, and
no others; it makes a step in the undo history if the text changes. -/
structure ChangesBlock (g : Target → Editor → Editor) (f : Nat → List Char → List Char) : Prop where
  lines {e : Editor} (t : Target) (hw : e.buffer.document.WellFormed)
    (hwidth : 1 ≤ e.config.indentWidth) :
    (g t e).lines = e.lines.mapBlock (f e.config.indentWidth) t.first t.last
  history {e : Editor} (t : Target) (hw : e.buffer.document.WellFormed)
    (hwidth : 1 ≤ e.config.indentWidth) :
    (g t e).buffer.history = if (g t e).lines = e.lines then e.buffer.history
      else e.buffer.history.checkpoint e.buffer.document
  mode (t : Target) (e : Editor) : (g t e).mode = e.mode
  register (t : Target) (e : Editor) : (g t e).register = e.register

/-- What follows a batch of edits does not touch the text. -/
theorem ChangesBlock.of_edit {g : Target → Editor → Editor} {f : Nat → List Char → List Char}
    {es : Target → Editor → List Edit}
    (hg : ∀ t e, g t e = (e.edit (es t e)).landOnText t.first)
    (hes : ∀ {e : Editor} (t : Target), e.buffer.document.WellFormed → 1 ≤ e.config.indentWidth →
      let x := e.edit (es t e)
      x.lines = e.lines.mapBlock (f e.config.indentWidth) t.first t.last ∧
        x.buffer.history = if x.lines = e.lines then e.buffer.history
          else e.buffer.history.checkpoint e.buffer.document) :
    ChangesBlock g f where
  lines t hw hwidth := by
    rw [hg, lines_landOnText]
    exact (hes t hw hwidth).1
  history t hw hwidth := by
    rw [hg, lines_landOnText, history_landOnText]
    exact (hes t hw hwidth).2
  mode t e := by rw [hg, mode_landOnText, mode_edit]
  register t e := by
    rw [hg, register_landOnText]
    rfl

theorem changesBlock_indent : ChangesBlock (fun t e => e.indent t) Lines.indentLine := by
  refine .of_edit (fun _ _ => rfl) fun {e} t hw hwidth => ?_
  refine edit_block hw rfl (Edit.changes_insert ?_) (fun n hn => ?_) (fun n => ?_) t
  · intro hmem
    exact absurd (List.eq_of_mem_replicate hmem) (by decide)
  · have hne : e.lines.line n ≠ [] := List.length_pos_iff.1 (of_decide_eq_true hn)
    exact (if_neg hne).symm
  · rw [Ne, Lines.indentLine_eq_self_iff hwidth, decide_eq_true_iff]
    exact List.length_pos_iff

theorem changesBlock_dedent : ChangesBlock (fun t e => e.dedent t) Lines.dedentLine := by
  refine .of_edit (fun _ _ => rfl) fun {e} t hw _ => ?_
  refine edit_block hw (Lines.dedentLine_nil _) (fun n => Edit.changes_erase n _) (fun n _ => ?_)
    (fun n => ?_) t
  · exact (Lines.dedentLine_eq_drop ..).symm
  · rw [Ne, Lines.dedentLine_eq_self_iff, decide_eq_true_iff]
    exact Nat.pos_iff_ne_zero

/-- **Indentation that is put in front of lines can be taken back.** -/
theorem lines_dedent_indent (hw : e.buffer.document.WellFormed) (hwidth : 1 ≤ e.config.indentWidth)
    {t t' : Target} (hfirst : t'.first = t.first) (hlast : t'.last = t.last) :
    ((e.indent t).dedent t').lines = e.lines := by
  have hconfig : (e.indent t).config = e.config := (acts_indent t : Acts true _ e).config
  have hw' : (e.indent t).buffer.document.WellFormed := wellFormed_landOnText (wellFormed_edit hw _) _
  have hwidth' : 1 ≤ (e.indent t).config.indentWidth := by rwa [hconfig]
  have hback : ((e.indent t).dedent t').lines = (e.indent t).lines.mapBlock
      (Lines.dedentLine (e.indent t).config.indentWidth) t'.first t'.last :=
    changesBlock_dedent.lines t' hw' hwidth'
  have hthere : (e.indent t).lines =
      e.lines.mapBlock (Lines.indentLine e.config.indentWidth) t.first t.last :=
    changesBlock_indent.lines t hw hwidth
  rw [hback, hthere, hconfig, hfirst, hlast, Lines.mapBlock_mapBlock, Lines.mapBlock_eq_self_iff]
  exact fun n _ _ => Lines.dedentLine_indentLine hwidth _

/-! ### The keys -/

/-- The keys that give the operator `op` a range that touches lines `first` to `last`. -/
inductive Touches (e : Editor) (op : Char) : (keys : List Char) → (first last : Nat) → Prop where
  /-- The line of the cursor. -/
  | wholeLine {ds : Digits} (h : e.phase = .normal .initial) (hds : ds.IsCount) :
      Touches e op (op :: (ds ++ [op])) e.buffer.cursor.line e.buffer.cursor.line
  /-- The stretch that a counted motion covers. -/
  | motion {ds : Digits} {k : Char} {m : MotionKey} {argument : Option Char} {s : Span}
      (h : e.phase = .normal .initial) (hds : ds.IsCount) (hk : MotionKey.ofChar? k = some m)
      (hargument : m.takesArgument = argument.isSome)
      (hreach : m.reach? e.lines e.separators argument (max ds.amount 1) e.buffer.cursor = some s) :
      Touches e op (op :: (ds ++ k :: argument.toList)) s.start.line s.stop.line
  /-- A selection, of characters or of whole lines. -/
  | selected {anchor : Position} {lineWise : Bool}
      (h : e.phase = .visual anchor lineWise .initial) :
      Touches e op [op] e.buffer.selection.span.start.line e.buffer.selection.span.stop.line

variable {op : Char} {keys : List Char} {first last : Nat} {action : Action}

theorem Touches.mode (h : e.Touches op keys first last) : e.mode ≠ .insert := by
  cases h with
  | wholeLine hphase | motion hphase | selected hphase =>
    rw [Editor.mode, hphase]
    simp [Phase.mode]

/-- The lines are lines of the text. -/
theorem Touches.range (h : e.Touches op keys first last) (hw : e.buffer.document.WellFormed) :
    first ≤ last ∧ last < e.lines.length := by
  have hspan {s : Span} (hs : s.Within e.lines) :
      s.start.line ≤ s.stop.line ∧ s.stop.line < e.lines.length := by
    have hle := s.start_le_stop
    rw [Position.le_iff] at hle
    exact ⟨by omega, hs.2.1⟩
  cases h with
  | wholeLine => exact ⟨Nat.le_refl _, hw.2.2.1⟩
  | motion _ _ _ _ hreach => exact hspan (MotionKey.within_reach? _ hw.2.2 hreach)
  | selected => exact hspan (Span.within_between hw.2.1 hw.2.2)

/-- The keys dispatch one command, whose target touches those lines. -/
theorem Touches.exists_target (h : e.Touches op keys first last)
    (hop : e.config.operator? op = some ⟨.range, .edit, action⟩) :
    ∃ (c : Command) (t : Target), keys.foldl typeKey e = e.dispatch c ∧ c.operator = op ∧
      c.isVirtual = false ∧ c.count = 1 ∧ e.target? c = some t ∧ t.first = first ∧
      t.last = last := by
  have hopens : Command.Opens e.config .range [] op := Command.opens_range hop rfl
  cases h with
  | wholeLine hphase hds =>
    exact ⟨_, _, foldl_typeKey_of_spells hphase (.wholeLine hopens hds), rfl, rfl, rfl,
      target?_wholeLine hphase rfl, rfl, rfl⟩
  | @motion ds k m argument s hphase hds hk hargument hreach =>
    refine ⟨_, .ofSpan s, foldl_typeKey_of_spells hphase (Command.spells_motion hopens hds hk
      hargument), rfl, rfl, rfl, ?_, rfl, rfl⟩
    rw [target?_motion hphase rfl (hopens.ne_of_ofChar? hk) hk, hreach]
    rfl
  | @selected anchor lineWise hphase =>
    refine ⟨_, _, foldl_typeKey_of_spellsSelected hphase (.range hopens), rfl, rfl, rfl,
      target?_selected hphase _, ?_, ?_⟩
    · cases lineWise <;> rfl
    · cases lineWise <;> rfl

theorem history_leaveVisual (e : Editor) : e.leaveVisual.buffer.history = e.buffer.history := by
  rw [leaveVisual]
  split
  · rw [resumeNormal]
    split <;> rfl
  · rfl

/-- The keys run the operator once, in an undo group of its own, and end in normal mode. -/
theorem Touches.exists_run {g : Target → Editor → Editor} (h : e.Touches op keys first last)
    (hop : e.config.operator? op = some ⟨.range, .edit, action⟩)
    (hmode : ∀ t x, (g t x).mode = x.mode)
    (hg : ∀ replay n t argument x,
      Action.run replay ⟨⟨.range, .edit, action⟩, n, t, argument⟩ x = (g t x, none)) :
    ∃ (c : Command) (t : Target), t.first = first ∧ t.last = last ∧
      (g t (e.prepare c)).leaveVisual.mode = .normal ∧
      keys.foldl typeKey e =
        (g t (e.prepare c)).leaveVisual.mapBuffer Buffer.endUndoGroup := by
  obtain ⟨c, t, hkeys, rfl, hvirtual, hcount, htarget, hfirst, hlast⟩ := h.exists_target hop
  have hnormal : (g t (e.prepare c)).leaveVisual.mode = .normal := by
    refine (congrArg (·.phase.mode) (view_leaveVisual _)).trans (View.mode_leaveVisual ?_)
    show (g t (e.prepare c)).mode ≠ .insert
    rw [hmode, mode_prepare]
    exact h.mode
  refine ⟨c, t, hfirst, hlast, hnormal, ?_⟩
  rw [hkeys, dispatch_eq]
  dsimp only
  rw [run_prepare_of_target hop hvirtual hcount (fun _ _ _ _ => hg ..) htarget,
    if_neg (by rw [hnormal]; decide)]

/-- **An operator that changes lines, by its keys.**  It changes those that the keys say, as at most
one step of the undo history. -/
theorem Touches.foldl_typeKey {g : Target → Editor → Editor} {f : Nat → List Char → List Char}
    (h : e.Touches op keys first last) (hw : e.buffer.document.WellFormed)
    (hwidth : 1 ≤ e.config.indentWidth)
    (hop : e.config.operator? op = some ⟨.range, .edit, action⟩) (hchanges : ChangesBlock g f)
    (hg : ∀ replay n t argument x,
      Action.run replay ⟨⟨.range, .edit, action⟩, n, t, argument⟩ x = (g t x, none)) :
    let x := keys.foldl typeKey e
    x.lines = e.lines.mapBlock (f e.config.indentWidth) first last ∧ x.mode = .normal ∧
      x.register = e.register ∧ x.buffer.history = (if x.lines = e.lines then e.buffer.history
        else e.buffer.history.checkpoint e.buffer.document).endGroup := by
  intro x
  obtain ⟨c, t, rfl, rfl, hmode, hx⟩ := h.exists_run hop hchanges.mode hg
  let y := e.prepare c
  have hview : y.view = e.view := view_prepare c
  have hdocument : y.buffer.document = e.buffer.document := congrArg View.document hview
  have hlines : y.lines = e.lines := congrArg Document.lines hdocument
  have hconfig : y.config = e.config := config_prepare e c
  have hview' : (g t y).leaveVisual.view = (g t y).view.leaveVisual := view_leaveVisual _
  replace hx : x = (g t y).leaveVisual.mapBuffer Buffer.endUndoGroup := hx
  have hsame : x.lines = (g t y).lines := by
    rw [hx]
    exact (congrArg (·.document.lines) hview').trans (View.lines_leaveVisual _)
  have hhistory : x.buffer.history = (g t y).buffer.history.endGroup := by
    rw [hx, ← history_leaveVisual (g t y)]
    rfl
  have hbegin : y.buffer.history = e.buffer.history.beginGroup := by
    simp only [y, prepare_eq]
    rfl
  rw [← hdocument] at hw
  rw [← hconfig] at hwidth
  refine ⟨?_, ?_, ?_, ?_⟩
  · rw [hsame, hchanges.lines t hw hwidth, hlines, hconfig]
  · rw [hx]
    exact hmode
  · rw [hx]
    refine (congrArg View.register hview').trans ((View.register_leaveVisual _).trans ?_)
    refine (hchanges.register t y).trans ?_
    exact congrArg View.register hview
  · rw [hhistory, hsame, hchanges.history t hw hwidth, hlines, hdocument, hbegin]
    split
    · rw [History.endGroup_beginGroup]
    · rw [History.endGroup_checkpoint_beginGroup]

end Editor

namespace Buffer

variable {b : Buffer} {h : History Document} {d : Document}

/-- A change that is recorded is one step, and undoing takes it back. -/
theorem undo_checkpoint (hclosed : h.grouping = .closed) (hlimit : 1 ≤ h.limit)
    (hb : b.history = (h.checkpoint d).endGroup) :
    b.history.past = (d :: h.past).take h.limit ∧ b.undo.1 = true ∧ b.undo.2.document = d := by
  obtain ⟨n, hn⟩ := Nat.exists_eq_succ_of_ne_zero (Nat.pos_iff_ne_zero.1 hlimit)
  have hpast : b.history.past = (d :: h.past).take h.limit := by
    rw [hb, History.checkpoint, if_neg (Nat.pos_iff_ne_zero.1 hlimit), hclosed]
    rfl
  have hundo : ∃ history, b.history.undo b.document = (some d, history) := by
    rw [hn, List.take_succ_cons] at hpast
    rw [History.undo, hpast]
    exact ⟨_, rfl⟩
  obtain ⟨history, hundo⟩ := hundo
  refine ⟨hpast, ?_⟩
  rw [undo, hundo]
  exact ⟨rfl, document_revealLine ..⟩

end Buffer

namespace Editor

variable {e : Editor} {op : Char} {keys : List Char} {first last : Nat}

/-- **Indentation.**  Without a count, `>` puts as many spaces as a step has in front of each line
with text that its range touches, and `<` takes one step from each of them, and nothing else of the
text changes.  Either is one step of the undo history if the text changes, and none otherwise; and
lines that are indented and then taken back are as they were. -/
theorem typeKeys_indentation (hw : e.buffer.document.WellFormed) (henabled : e.enabled = true)
    (hwidth : 1 ≤ e.config.indentWidth) (hop : op ∈ ['>', '<'])
    (hfree : e.config.hostCommands? op = none) (hkeys : e.Touches op keys first last) :
    let x := e.typeKeys keys
    first ≤ last ∧ last < e.lines.length ∧
      (op = '>' → x.lines = e.lines.mapBlock (Lines.indentLine e.config.indentWidth) first last) ∧
      (op = '<' → x.lines = e.lines.mapBlock (Lines.dedentLine e.config.indentWidth) first last) ∧
      x.mode = .normal ∧ x.register = e.register ∧
      (x.lines = e.lines → x.buffer.history = e.buffer.history.endGroup) ∧
      (x.lines ≠ e.lines →
        x.buffer.history = (e.buffer.history.checkpoint e.buffer.document).endGroup ∧
          (e.buffer.history.grouping = .closed → 1 ≤ e.buffer.history.limit →
            x.buffer.history.past =
                (e.buffer.document :: e.buffer.history.past).take e.buffer.history.limit ∧
              x.buffer.undo.1 = true ∧ x.buffer.undo.2.document = e.buffer.document)) ∧
      ∀ t t' : Target, t'.first = t.first → t'.last = t.last →
        ((e.indent t).dedent t').lines = e.lines := by
  intro x
  obtain ⟨hle, hlast⟩ := hkeys.range hw
  have hx : x = keys.foldl typeKey e := by simp only [x, typeKeys, henabled, if_true]
  -- Both operators change the lines, each by its own function.
  obtain ⟨f, hf, hindent, hdedent⟩ : ∃ f, (x.lines = e.lines.mapBlock f first last ∧
      x.mode = .normal ∧ x.register = e.register ∧
      x.buffer.history = (if x.lines = e.lines then e.buffer.history
        else e.buffer.history.checkpoint e.buffer.document).endGroup) ∧
      (op = '>' → f = Lines.indentLine e.config.indentWidth) ∧
      (op = '<' → f = Lines.dedentLine e.config.indentWidth) := by
    rw [hx]
    simp only [List.mem_cons, List.not_mem_nil, or_false] at hop
    rcases hop with rfl | rfl
    · have hoperator : e.config.operator? '>' = some ⟨.range, .edit, .indent⟩ := by
        rw [Config.operator?, hfree]
        rfl
      exact ⟨_, hkeys.foldl_typeKey hw hwidth hoperator changesBlock_indent
        fun _ _ _ _ _ => rfl, fun _ => rfl, fun h => absurd h (by decide)⟩
    · have hoperator : e.config.operator? '<' = some ⟨.range, .edit, .dedent⟩ := by
        rw [Config.operator?, hfree]
        rfl
      exact ⟨_, hkeys.foldl_typeKey hw hwidth hoperator changesBlock_dedent
        fun _ _ _ _ _ => rfl, fun h => absurd h (by decide), fun _ => rfl⟩
  obtain ⟨hlines, hmode, hregister, hhistory⟩ := hf
  refine ⟨hle, hlast, fun h => ?_, fun h => ?_, hmode, hregister, fun h => ?_, fun h => ?_,
    fun t t' => lines_dedent_indent hw hwidth⟩
  · rw [hlines, hindent h]
  · rw [hlines, hdedent h]
  · rw [hhistory, if_pos h]
  · rw [if_neg h] at hhistory
    exact ⟨hhistory, fun hclosed hlimit => Buffer.undo_checkpoint hclosed hlimit hhistory⟩

/-- A tab, an empty line, and fewer spaces than a step has: each line gives up what it has, and one
undo brings it all back. -/
theorem typeKeys_indentation_short :
    let e := (Session.start ['\t', 'a', '\n', '\n', ' ', 'é'] 5 {} {} (.memory none) none).toEditor
    let x := e.typeKeys ['<', '2', 'j']
    let y := e.typeKeys ['>', '2', 'j']
    e.config.indentWidth = 4 ∧ x.lines = [['a'], [], ['é']] ∧
      x.buffer.undo.2.document = e.buffer.document ∧
      y.lines = [[' ', ' ', ' ', ' ', '\t', 'a'], [], [' ', ' ', ' ', ' ', ' ', 'é']] := by
  intro e x y
  have hw : e.buffer.WellFormed := Session.wellFormed_start ..
  have henabled : e.enabled = true := rfl
  have hphase : e.phase = .normal .initial := rfl
  have hwidth : e.config.indentWidth = 4 := rfl
  have hclosed : e.buffer.history.grouping = .closed := rfl
  have hlimit : e.buffer.history.limit = 5 := rfl
  have hlines : e.lines = [['\t', 'a'], [], [' ', 'é']] := by decide +kernel
  have hfree : ∀ k ∈ ['>', '<'], e.config.hostCommands? k = none := by
    intro k hk
    simp only [List.mem_cons, List.not_mem_nil, or_false] at hk
    rcases hk with rfl | rfl <;> decide +kernel
  have hreach : (MotionKey.plain .down).reach? e.lines e.separators none 2 e.buffer.cursor =
      some (.between ⟨0, 0⟩ ⟨2, 0⟩) := by decide +kernel
  clear_value e
  have hcount : Digits.IsCount ['2'] := .inr (.digit rfl (by decide))
  have htouches (op : Char) : e.Touches op (op :: (['2'] ++ 'j' :: Option.toList none)) 0 2 :=
    .motion hphase hcount rfl rfl hreach
  have hwidth' : 1 ≤ e.config.indentWidth := by rw [hwidth]; decide
  obtain ⟨-, -, -, hdedent, -, -, -, hundo, -⟩ := typeKeys_indentation hw.document henabled hwidth'
    (by decide) (hfree '<' (by decide)) (htouches '<')
  obtain ⟨-, -, hindent, -⟩ := typeKeys_indentation hw.document henabled hwidth'
    (by decide) (hfree '>' (by decide)) (htouches '>')
  have hx : x.lines = [['a'], [], ['é']] := by
    refine (hdedent rfl).trans ?_
    rw [hlines, hwidth]
    decide
  have hchanged : x.lines ≠ e.lines := by
    rw [hx, hlines]
    decide
  obtain ⟨-, hundo⟩ := hundo hchanged
  refine ⟨hwidth, hx, (hundo hclosed (by rw [hlimit]; decide)).2.2, ?_⟩
  refine (hindent rfl).trans ?_
  rw [hlines, hwidth]
  decide

end Editor

end ModalEditor
