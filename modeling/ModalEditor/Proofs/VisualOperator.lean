import ModalEditor.Proofs.Reachable
import ModalEditor.Proofs.Travel

/-!
# Operators over a selection and over a motion

An operator can be given its range in two ways: by a counted motion that follows it, or by entering
visual mode, moving by the same counted motion, and giving the operator then.  Both run the
operator on the same span (`Editor.exists_views`), and both end alike.

On the one way the motion is chained while the command is planned, and the target covers the places
visited (`Travel.reach?_eq`).  On the other the motion is a command of its own that extends the
selection, once for each step (`Editor.roams_visual`).  What the operator does then depends on the
lines and the target only, and leaves the cursor at the start of the target either way.
-/

namespace ModalEditor

namespace Editor

variable {e : Editor}

/-- Typing a count where counts are read. -/
theorem foldl_typeKey_digits {f : Digits → Editor}
    (hf : ∀ ds c, Digits.accepts ds c → (f ds).typeKey c = f (ds ++ [c])) {ds : Digits}
    (h : ds.IsNumeral) : ds.foldl typeKey (f []) = f ds := by
  induction h with
  | digit h hzero => exact hf [] _ (by simp [Digits.accepts, h, hzero])
  | snoc hds h ih =>
    rw [List.foldl_append, ih]
    exact hf _ _ (by simp [Digits.accepts, h, hds.ne_nil])

end Editor

/-! ### Moving in visual mode -/

namespace Editor

variable {e y : Editor} {w : View} {p q : Position}

/-- In visual mode, moving extends the selection. -/
theorem view_moveTo_of_visual {r : VisualReader} (h : y.phase = .visual p false r)
    (hp : y.lines.InRange p) (hq : y.lines.InRange q) :
    (y.moveTo q).view =
      { y.view with document := { y.view.document with selection := ⟨p, q⟩ } } := by
  have hselection : y.selectionAt (y.lines.clamp q) = ⟨p, q⟩ := by
    rw [Lines.clamp_of_inRange hq, selectionAt, h]
  have hclamp : Selection.map y.lines.clamp ⟨p, q⟩ = ⟨p, q⟩ := by
    rw [Selection.map, Lines.clamp_of_inRange hp, Lines.clamp_of_inRange hq]
  rw [view_moveTo, hselection, View.select, Document.select,
    show y.view.document.lines = y.lines from rfl, hclamp]
  rfl

theorem view_moveTo_visual (hy : y.view = w.visual p q) {r : Position}
    (hp : w.document.lines.InRange p) (hr : w.document.lines.InRange r) :
    (y.moveTo r).view = w.visual p r := by
  have hphase : y.phase = .visual p false .initial := congrArg View.phase hy
  have hlines : y.lines = w.document.lines := congrArg (·.document.lines) hy
  rw [view_moveTo_of_visual hphase (hlines ▸ hp) (hlines ▸ hr), hy]; rfl

theorem view_enterVisual (hp : e.lines.InRange e.buffer.cursor) (h : e.phase.anchor? = none) :
    (e.enterVisual false).view = e.view.visual e.buffer.cursor e.buffer.cursor := by
  have hcursor : e.buffer.clampedCursor = e.buffer.cursor := Lines.clamp_of_inRange hp
  let x : Editor := { e.mapBuffer fun b => { b with cursorStyle := .block } with
    phase := .visual e.buffer.cursor false .initial }
  have henter : e.enterVisual false = x.moveTo e.buffer.cursor := by
    simp only [enterVisual, h, hcursor]; rfl
  rw [henter, view_moveTo_of_visual (y := x) rfl hp hp]; rfl

/-- In visual mode, moving leads from selection to selection. -/
theorem roams_visual (w : View) (hp : w.document.lines.InRange p) :
    Roams w.document.lines w.config .visual fun q v => v = w.visual p q where
  lines h := by rw [h]; rfl
  cursor h := by rw [h]; rfl
  config h := by rw [h]; rfl
  mode h := by rw [h]; rfl
  moveTo h hq := view_moveTo_visual h hp hq

/-- The key `v`, dispatched in normal mode, selects from the cursor to the cursor. -/
theorem view_dispatch_visual {r : NormalReader} (hphase : e.phase = .normal r)
    (hp : e.lines.InRange e.buffer.cursor) (hv : e.config.hostCommands? 'v' = none) :
    (e.dispatch { operator := 'v' }).view = e.view.visual e.buffer.cursor e.buffer.cursor := by
  let c : Command := { operator := 'v' }
  have hview : (e.prepare c).view = e.view := view_prepare c
  have hop : e.config.operator? c.operator = some ⟨.alone, .mode, .visual false⟩ := by
    rw [Config.operator?, hv]; rfl
  have hphase' : (e.prepare c).phase = .normal r := (congrArg View.phase hview).trans hphase
  have hcursor : (e.prepare c).buffer.cursor = e.buffer.cursor :=
    congrArg (·.document.cursor) hview
  have hlines : (e.prepare c).lines = e.lines := congrArg (·.document.lines) hview
  have hrun (replay : Editor → Editor) (plan : Plan) (h : plan.operator =
      ⟨.alone, .mode, .visual false⟩) :
      runPlan replay plan (e.prepare c) = ((e.prepare c).enterVisual false, none) := by
    simp [runPlan, Action.run, h, toggleVisual, mode, hphase', Phase.mode]
  have henter := view_enterVisual (e := e.prepare c) (by rwa [hcursor, hlines])
    (by rw [hphase']; rfl)
  have honce := view_dispatch_once (f := fun x => x.enterVisual false) hop (by decide) rfl rfl hrun
  rw [honce, henter, hview, hcursor]

/-! ### The keys of the two ways -/

theorem isDigit_of_builtin? {c : Char} {op : Operator} (h : Operator.builtin? c = some op) :
    c.isDigit = false := by
  unfold Operator.builtin? at h
  split at h <;> first | rfl | cases h

theorem accepts_of_builtin? {c : Char} {op : Operator} (h : Operator.builtin? c = some op)
    (ds : Digits) : ds.accepts c = false :=
  Digits.accepts_of_isDigit (isDigit_of_builtin? h) ds

variable {t : Travel} {op k : Char} {ds : Digits} {kind : Kind} {action : Action}

/-- In visual mode, a counted motion is a command of its own. -/
theorem foldl_typeKey_travel (y : Editor) (hds : ds.IsNumeral) (ht : t.Spells k)
    (hop : y.config.operator? k = some t.operator) : (ds ++ k :: t.argument.toList).foldl typeKey
      { y with phase := .visual p false .initial } =
    { y with phase := .visual p false .initial }.dispatch
      { operator := k, count := ds.count, argument := t.argument } := by
  have haccepts := accepts_of_builtin? ht.2 ds
  have hdigits := foldl_typeKey_digits
    (f := fun ds => { y with phase := .visual p false (.operator ds) })
    (fun ds c hc => by simp [typeKey, VisualReader.read, hc, dispatch?]) hds
  rw [List.foldl_append, show VisualReader.initial = .operator [] from rfl, hdigits]
  cases t with
  | plain m =>
    simp [typeKey, VisualReader.read, haccepts, hop, Travel.operator, Operator.moving,
      Travel.argument, dispatch?, VisualReader.initial]
  | search s c =>
    simp [typeKey, VisualReader.read, haccepts, hop, Travel.operator, Travel.argument, dispatch?,
      VisualReader.initial]

/-- In visual mode, an operator is complete. -/
theorem typeKey_operator_of_visual (hphase : y.phase = .visual p false .initial)
    (hbuiltin : Operator.builtin? op = some ⟨.range, kind, action⟩)
    (hop : y.config.operator? op = some ⟨.range, kind, action⟩) :
    y.typeKey op = y.dispatch { operator := op } := by
  have haccepts := accepts_of_builtin? hbuiltin []
  have hself : { y with phase := .visual p false .initial } = y := with_phase_self hphase
  have hkey : y.typeKey op =
      { y with phase := .visual p false .initial }.dispatch { operator := op } := by
    simp [typeKey, hphase, VisualReader.initial, VisualReader.read, haccepts, hop, dispatch?,
      Digits.count]
  rw [hkey, hself]

end Editor

/-! ### The operators on both ways -/

/-- `f` is what the action makes of a span of characters. -/
def Action.Makes (a : Action) (f : Span → Editor → Editor) : Prop :=
  ∀ replay n s argument e,
    Action.run replay ⟨⟨.range, .edit, a⟩, n, .ofSpan s, argument⟩ e = (f s e, none)

namespace Editor

variable {e x y : Editor} {t : Travel} {op k : Char} {ds : Digits} {action : Action}
variable {f : Span → Editor → Editor}

/-- What a command works on depends on the view only. -/
theorem target?_congr (h : x.view = y.view) (c : Command) : x.target? c = y.target? c := by
  have hdocument : x.buffer.document = y.buffer.document := congrArg View.document h
  have hphase : x.phase = y.phase := congrArg View.phase h
  have hconfig : x.config = y.config := congrArg View.config h
  simp only [target?, lines, separators, Buffer.lines, Buffer.cursor, Buffer.selection, hdocument,
    hphase, hconfig]

/-- An operator with a range and without a count is run once on its target. -/
theorem run_of_target {c : Command} {t : Target} {g : Editor → Editor}
    (hop : e.config.operator? c.operator = some ⟨.range, .edit, action⟩)
    (hvirtual : c.isVirtual = false) (hcount : c.count = 1)
    (hg : ∀ replay n argument x,
      Action.run replay ⟨⟨.range, .edit, action⟩, n, t, argument⟩ x = (g x, none))
    (htarget : e.target? c = some t) : e.run c = (g e).leaveVisual := by
  have honce : (if e.mode = .visual then 1 else max c.count 1) = 1 := by
    rw [hcount]
    exact ite_self 1
  rw [run, runWith, plan?_of_range hop hvirtual htarget]
  dsimp only
  rw [honce, repeatPlan_one (by rw [runPlan_edit rfl, hg]), runPlan_edit rfl, hg]

/-- What a command works on is still there when its undo group has been opened. -/
theorem run_prepare_of_target {c : Command} {t : Target} {g : Editor → Editor}
    (hop : e.config.operator? c.operator = some ⟨.range, .edit, action⟩)
    (hvirtual : c.isVirtual = false) (hcount : c.count = 1)
    (hg : ∀ replay n argument x,
      Action.run replay ⟨⟨.range, .edit, action⟩, n, t, argument⟩ x = (g x, none))
    (htarget : e.target? c = some t) :
    (e.prepare c).run c = (g (e.prepare c)).leaveVisual := by
  refine run_of_target ?_ hvirtual hcount hg ?_
  · rw [config_prepare, hop]
  · rw [target?_congr (view_prepare c), htarget]

/-- Dispatching an operator runs it once on its target. -/
theorem exists_view_dispatch_target {c : Command} {t : Target} {g : Editor → Editor}
    (hop : e.config.operator? c.operator = some ⟨.range, .edit, action⟩)
    (hvirtual : c.isVirtual = false) (hcount : c.count = 1)
    (hg : ∀ replay n argument x,
      Action.run replay ⟨⟨.range, .edit, action⟩, n, t, argument⟩ x = (g x, none))
    (htarget : e.target? c = some t) :
    ∃ x, x.view = e.view ∧ (e.dispatch c).view = (g x).view.leaveVisual := by
  refine ⟨e.prepare c, view_prepare c, ?_⟩
  rw [view_dispatch, run_prepare_of_target hop hvirtual hcount hg htarget, view_leaveVisual]

/-- The key of an operator without a range, typed in normal mode, runs it once. -/
theorem exists_view_typeKey_alone {f : Editor → Editor} (hphase : e.phase = .normal .initial)
    (hop : e.config.operator? k = some ⟨.alone, .edit, action⟩) (hk : k.isDigit = false)
    (hf : ∀ replay n t argument x,
      Action.run replay ⟨⟨.alone, .edit, action⟩, n, t, argument⟩ x = (f x, none)) :
    ∃ x, x.view = e.view ∧ (e.typeKey k).view = (f x).view.leaveVisual := by
  have hopens : Command.Opens e.config .alone [] k :=
    ⟨.inl rfl, .of_isDigit hk, by rw [hop]; rfl⟩
  have hkey : e.typeKey k = e.dispatch { operator := k } :=
    foldl_typeKey_of_spells hphase (.alone hopens)
  have hdispatch : (e.dispatch { operator := k }).view =
      (f (e.prepare { operator := k })).leaveVisual.view := by
    refine view_dispatch_once (f := fun x => (f x).leaveVisual) hop (by simp) rfl rfl ?_
    rintro replay ⟨op, n, t, argument⟩ hplan
    obtain rfl : op = _ := hplan
    rw [runPlan_edit rfl, hf]
  exact ⟨e.prepare { operator := k }, view_prepare _, by rw [hkey, hdispatch, view_leaveVisual]⟩

/-- On a target of characters, an operator runs once as it does on the span. -/
theorem exists_view_dispatch_range {c : Command} {s : Span}
    (hop : e.config.operator? c.operator = some ⟨.range, .edit, action⟩)
    (hvirtual : c.isVirtual = false) (hcount : c.count = 1) (hf : action.Makes f)
    (htarget : e.target? c = some (.ofSpan s)) :
    ∃ x, x.view = e.view ∧ (e.dispatch c).view = (f s x).view.leaveVisual :=
  exists_view_dispatch_target hop hvirtual hcount (fun replay n argument x => hf replay n s argument x)
    htarget

/-- An operator and a counted motion act on the stretch to where the motion leads. -/
theorem exists_view_operator_motion (hphase : e.phase = .normal .initial)
    (hp : e.lines.InRange e.buffer.cursor) (hds : ds.IsNumeral) (ht : t.Spells k)
    (hop : e.config.operator? op = some ⟨.range, .edit, action⟩) (hf : action.Makes f) :
    ∃ x, x.view = e.view ∧
      ((op :: (ds ++ k :: t.argument.toList)).foldl typeKey e).view =
        (f (.between e.buffer.cursor ((e.view.step t)^[max ds.amount 1] e.buffer.cursor))
          x).view.leaveVisual := by
  have hopens : Command.Opens e.config .range [] op := Command.opens_range hop rfl
  -- A motion takes no range, so its key is not the one of the operator.
  have hk : k ≠ op := hopens.ne_of_ofChar? ht.1
  rw [foldl_typeKey_of_spells hphase (Travel.spells_range hopens (.inr hds) ht)]
  exact exists_view_dispatch_range hop rfl rfl hf (target?_travel hphase hp ht hk rfl rfl)

/-- Selecting by a counted motion, an operator acts on the stretch to where the motion leads. -/
theorem exists_view_visual_operator (hphase : e.phase = .normal .initial)
    (hp : e.lines.InRange e.buffer.cursor) (hds : ds.IsNumeral) (ht : t.Spells k)
    (hv : e.config.hostCommands? 'v' = none) (hk : e.config.operator? k = some t.operator)
    (hbuiltin : Operator.builtin? op = some ⟨.range, .edit, action⟩)
    (hop : e.config.operator? op = some ⟨.range, .edit, action⟩) (hf : action.Makes f) :
    let q := (e.view.step t)^[max ds.amount 1] e.buffer.cursor
    ∃ x, x.view = e.view.visual e.buffer.cursor q ∧
      (('v' :: (ds ++ k :: t.argument.toList ++ [op])).foldl typeKey e).view =
        (f (.between e.buffer.cursor q) x).view.leaveVisual := by
  intro q
  -- the key `v`
  have hopens : Command.Opens e.config .alone [] 'v' :=
    ⟨.inl rfl, .of_isDigit rfl, by rw [Config.operator?, hv]; rfl⟩
  have hvisual : e.typeKey 'v' = e.dispatch { operator := 'v' } :=
    foldl_typeKey_of_spells hphase (.alone hopens)
  obtain ⟨y, hey, hy⟩ : ∃ y, e.typeKey 'v' = y ∧
      y.view = e.view.visual e.buffer.cursor e.buffer.cursor :=
    ⟨_, hvisual, view_dispatch_visual hphase hp hv⟩
  -- the count and the motion
  have hyphase : y.phase = .visual e.buffer.cursor false .initial := congrArg View.phase hy
  have hyconfig : y.config = e.config := congrArg View.config hy
  have hyk : y.config.operator? k = some t.operator := by rw [hyconfig, hk]
  have hkeys := foldl_typeKey_travel (p := e.buffer.cursor) y hds ht hyk
  rw [with_phase_self hyphase, Digits.count_eq_amount] at hkeys
  have hmoved := at_dispatch_travel (roams_visual e.view hp)
    (c := { operator := k, count := ds.amount, argument := t.argument }) hp hk rfl rfl hy
  obtain ⟨z, hyz, hz⟩ : ∃ z, (ds ++ k :: t.argument.toList).foldl typeKey y = z ∧
      z.view = e.view.visual e.buffer.cursor q :=
    ⟨_, hkeys, hmoved⟩
  -- the operator
  have hzphase : z.phase = .visual e.buffer.cursor false .initial := congrArg View.phase hz
  have hzconfig : z.config = e.config := congrArg View.config hz
  have hzop : z.config.operator? op = some ⟨.range, .edit, action⟩ := by rw [hzconfig, hop]
  have htarget : z.target? { operator := op } = some (.ofSpan (.between e.buffer.cursor q)) := by
    have hselection : z.buffer.selection = ⟨e.buffer.cursor, q⟩ :=
      congrArg (·.document.selection) hz
    rw [target?_selected hzphase, hselection]
    rfl
  rw [List.foldl_cons, hey, List.foldl_append, hyz, List.foldl_cons, List.foldl_nil,
    typeKey_operator_of_visual hzphase hbuiltin hzop, ← hz]
  exact exists_view_dispatch_range hzop rfl rfl hf htarget

/-- Both ways run the operator on the same span, one of them with the span selected. -/
theorem exists_views (he : e.Waiting) (hds : ds.IsNumeral) (ht : t.Spells k)
    (hfree : ∀ c ∈ ['v', k, op], e.config.hostCommands? c = none)
    (hbuiltin : Operator.builtin? op = some ⟨.range, .edit, action⟩) (hf : action.Makes f) :
    ∃ q x y, x.view = e.view ∧ y.view = e.view.visual e.buffer.cursor q ∧
      (e.typeKeys (op :: (ds ++ k :: t.argument.toList))).view =
        (f (.between e.buffer.cursor q) x).view.leaveVisual ∧
      (e.typeKeys ('v' :: (ds ++ k :: t.argument.toList ++ [op]))).view =
        (f (.between e.buffer.cursor q) y).view.leaveVisual := by
  have hop : e.config.operator? op = some ⟨.range, .edit, action⟩ := by
    rw [Config.operator?, hfree op (by simp), hbuiltin]
  have hk : e.config.operator? k = some t.operator := by
    rw [Config.operator?, hfree k (by simp), ht.2]
  have hp : e.lines.InRange e.buffer.cursor := he.wellFormed.2.2
  obtain ⟨x, hx, hplain⟩ := exists_view_operator_motion he.phase hp hds ht hop hf
  obtain ⟨y, hy, hselected⟩ := exists_view_visual_operator he.phase hp hds ht
    (hfree 'v' (by simp)) hk hbuiltin hop hf
  simp only [typeKeys, he.enabled, if_true]
  exact ⟨_, x, y, hx, hy, hplain, hselected⟩

/-- An operator that makes views alike of a span that is selected and one that is not makes them
alike on both ways. -/
theorem alike_typeKeys_of_view {g : Span → View → View} (he : e.Waiting) (hds : ds.IsNumeral)
    (ht : t.Spells k) (hfree : ∀ c ∈ ['v', k, op], e.config.hostCommands? c = none)
    (hbuiltin : Operator.builtin? op = some ⟨.range, .edit, action⟩) (hf : action.Makes f)
    (hview : ∀ s x, (f s x).view = g s x.view)
    (halike : ∀ q, (g (.between e.buffer.cursor q) e.view).leaveVisual.Alike
      (g (.between e.buffer.cursor q) (e.view.visual e.buffer.cursor q)).leaveVisual) :
    (e.typeKeys (op :: (ds ++ k :: t.argument.toList))).view.Alike
      (e.typeKeys ('v' :: (ds ++ k :: t.argument.toList ++ [op]))).view := by
  obtain ⟨q, x, y, hx, hy, hplain, hselected⟩ := exists_views he hds ht hfree hbuiltin hf
  rw [hplain, hselected, hview, hview, hx, hy]
  exact halike q

/-- Deleting, copying and changing end alike on both ways. -/
theorem alike_typeKeys (he : e.Waiting) (hds : ds.IsNumeral) (ht : t.Spells k)
    (hfree : ∀ c ∈ ['v', k, op], e.config.hostCommands? c = none) (hop : op ∈ ['d', 'y', 'c']) :
    (e.typeKeys (op :: (ds ++ k :: t.argument.toList))).view.Alike
      (e.typeKeys ('v' :: (ds ++ k :: t.argument.toList ++ [op]))).view := by
  simp only [List.mem_cons, List.not_mem_nil, or_false] at hop
  rcases hop with rfl | rfl | rfl
  · exact alike_typeKeys_of_view (f := fun s x => x.delete (.ofSpan s)) (g := fun s w => w.delete s)
      he hds ht hfree rfl (fun _ _ _ _ _ => rfl) (fun s x => x.view_delete s)
      (View.alike_delete he.phase he.wellFormed rfl)
  · exact alike_typeKeys_of_view (f := fun s x => x.yank (.ofSpan s)) (g := fun s w => w.yank s)
      he hds ht hfree rfl (fun _ _ _ _ _ => rfl) (fun s x => x.view_yank s)
      (View.alike_yank he.phase he.wellFormed rfl)
  · exact alike_typeKeys_of_view (f := fun s x => x.change (.ofSpan s)) (g := fun s w => w.change s)
      he hds ht hfree rfl (fun _ _ _ _ _ => rfl) (fun s x => x.view_change s)
      fun q => View.alike_change e.view _ _ q

/-- An operator that keeps the mode and looks at the lines and the settings only makes the same of
the lines on both ways. -/
theorem lines_typeKeys (he : e.Waiting) (hds : ds.IsNumeral) (ht : t.Spells k)
    (hfree : ∀ c ∈ ['v', k, op], e.config.hostCommands? c = none)
    (hbuiltin : Operator.builtin? op = some ⟨.range, .edit, action⟩) (hf : action.Makes f)
    (hlines : ∀ s (x y : Editor), x.lines = y.lines → x.config = y.config →
      (f s x).lines = (f s y).lines) (hmode : ∀ s x, (f s x).mode = x.mode) :
    let x := e.typeKeys (op :: (ds ++ k :: t.argument.toList))
    let y := e.typeKeys ('v' :: (ds ++ k :: t.argument.toList ++ [op]))
    x.lines = y.lines ∧ x.mode = y.mode := by
  obtain ⟨q, x, y, hx, hy, hplain, hselected⟩ := exists_views he hds ht hfree hbuiltin hf
  generalize Span.between e.buffer.cursor q = s at hplain hselected
  have hxmode : x.mode = .normal :=
    (congrArg (·.phase.mode) hx).trans (congrArg Phase.mode he.phase)
  have hymode : y.mode = .visual := congrArg (·.phase.mode) hy
  have hxlines : x.lines = e.lines := congrArg (·.document.lines) hx
  have hylines : y.lines = e.lines := congrArg (·.document.lines) hy
  have hxconfig : x.config = e.config := congrArg View.config hx
  have hyconfig : y.config = e.config := congrArg View.config hy
  have hsame := hlines s x y (hxlines.trans hylines.symm) (hxconfig.trans hyconfig.symm)
  constructor
  · calc
      _ = (f s x).lines :=
        (congrArg (·.document.lines) hplain).trans (View.lines_leaveVisual _)
      _ = (f s y).lines := hsame
      _ = _ := ((congrArg (·.document.lines) hselected).trans (View.lines_leaveVisual _)).symm
  · have hxstays : (f s x).mode ≠ .insert := by rw [hmode, hxmode]; decide
    have hystays : (f s y).mode ≠ .insert := by rw [hmode, hymode]; decide
    have hxnormal : (f s x).view.leaveVisual.phase.mode = .normal := View.mode_leaveVisual hxstays
    have hynormal : (f s y).view.leaveVisual.phase.mode = .normal := View.mode_leaveVisual hystays
    calc
      _ = Mode.normal := (congrArg (·.phase.mode) hplain).trans hxnormal
      _ = _ := ((congrArg (·.phase.mode) hselected).trans hynormal).symm

end Editor

namespace Session

variable {s : Session}

/-- **An operator over a selection is the operator over a motion.**  In a reachable session that
waits for a command in normal mode, an operator, a count and a motion end like the key `v`, the
count, the motion and the operator. -/
theorem visual_operator_eq (h : s.Reachable) (henabled : s.enabled = true)
    (hmode : s.mode = .normal) (hpending : s.hasPending = false) {n : Nat} (hn : 1 ≤ n) {m : Char}
    {argument : Option Char}
    (hm : m ∈ ['w', 'b', 'h', 'j', 'k', 'l', 'e', 's', 'D', 'U'] ∧ argument = none ∨
      m ∈ ['f', 'F'] ∧ argument.isSome)
    {op : Char} (hfree : ∀ c ∈ ['v', m, op], s.config.hostCommands? c = none) :
    let motion := Nat.toDigits 10 n ++ m :: argument.toList
    let x := s.typeKeys (op :: motion)
    let y := s.typeKeys ('v' :: (motion ++ [op]))
    (op ∈ ['d', 'y', 'c'] →
      x.buffer.text = y.buffer.text ∧ x.buffer.cursor = y.buffer.cursor ∧
        x.register = y.register ∧ x.buffer.clipboard = y.buffer.clipboard ∧ x.mode = y.mode) ∧
    (op ∈ ['>', '<'] → x.buffer.text = y.buffer.text ∧ x.mode = y.mode) := by
  intro motion x y
  have hs : s.Waiting := h.waiting henabled hmode hpending
  have hds := Digits.isNumeral_toDigits hn
  obtain ⟨t, rfl, ht⟩ := Travel.exists_spells hm
  constructor
  · intro hop
    have halike : x.view.Alike y.view := Editor.alike_typeKeys hs hds ht hfree hop
    exact ⟨congrArg Lines.text halike.lines, halike.cursor, halike.register, halike.clipboard,
      halike.mode⟩
  · intro hop
    have hsame : x.lines = y.lines ∧ x.mode = y.mode := by
      simp only [List.mem_cons, List.not_mem_nil, or_false] at hop
      rcases hop with rfl | rfl
      · exact Editor.lines_typeKeys hs hds ht hfree rfl (fun _ _ _ _ _ => rfl)
          (fun s _ _ hlines hconfig => Editor.lines_indent_congr hlines hconfig (.ofSpan s))
          fun _ x => x.mode_indent _
      · exact Editor.lines_typeKeys hs hds ht hfree rfl (fun _ _ _ _ _ => rfl)
          (fun s _ _ hlines hconfig => Editor.lines_dedent_congr hlines hconfig (.ofSpan s))
          fun _ x => x.mode_dedent _
    exact ⟨congrArg Lines.text hsame.1, hsame.2⟩

/-- Two words deleted, over the motion and over the selection. -/
theorem visual_operator_eq_deleteWords :
    let s := start ['a', 'b', ' ', 'c', ' ', 'd'] 5 {} {} (.memory none) none
    let x := s.typeKeys ['d', '2', 'w']
    let y := s.typeKeys ['v', '2', 'w', 'd']
    x.buffer.text = ['d'] ∧ x.buffer.text = y.buffer.text ∧ x.buffer.cursor = y.buffer.cursor ∧
      x.register = y.register ∧ x.buffer.clipboard = y.buffer.clipboard ∧ x.mode = y.mode := by
  intro s x y
  have hs : s.Reachable := .start ..
  have henabled : s.enabled = true := rfl
  have hmode : s.mode = .normal := rfl
  have hpending : s.hasPending = false := rfl
  have hfree : ∀ c ∈ ['v', 'w', 'd'], s.config.hostCommands? c = none := by
    intro c hc
    simp only [List.mem_cons, List.not_mem_nil, or_false] at hc
    rcases hc with rfl | rfl | rfl <;> decide +kernel
  have htext : x.buffer.text = ['d'] := by decide +kernel
  clear_value s
  have hkeys : Nat.toDigits 10 2 ++ 'w' :: Option.toList none = ['2', 'w'] := by decide
  have hways := visual_operator_eq hs henabled hmode hpending (show 1 ≤ 2 by decide)
    (.inl ⟨by decide, rfl⟩) hfree
  rw [hkeys] at hways
  exact ⟨htext, hways.1 (by decide)⟩

end Session

end ModalEditor
