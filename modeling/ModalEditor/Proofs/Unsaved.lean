import ModalEditor.Proofs.Loop
import ModalEditor.Proofs.Runs

/-!
# Unsaved changes

What is on record as saved are the lines of the last save that succeeded, or before any save those
at the start.  The record is kept alongside the interpreter (`Session.savedAfter`): saving is done
by a key, or by a host command in the midst of others.

Without the mark of unsaved changes, the lines are those on record (`Workspace.Clean`).  This holds
after every action, and so a session that ends with other lines has warned of that before
(`Session.end_saved_or_warned`).
-/

namespace ModalEditor

namespace Buffer

variable {b : Buffer} {c : Call} {cs : List Call}

theorem lines_undo_of_dirty (h : b.undo.2.dirty = false) :
    b.dirty = false ∧ b.undo.2.lines = b.lines := by
  unfold undo at h ⊢
  split at h
  · cases (dirty_restore ..).symm.trans h
  · exact ⟨h, rfl⟩

theorem lines_redo_of_dirty (h : b.redo.2.dirty = false) :
    b.dirty = false ∧ b.redo.2.lines = b.lines := by
  unfold redo at h ⊢
  split at h
  · cases (dirty_restore ..).symm.trans h
  · exact ⟨h, rfl⟩

theorem lines_revealLine_of_dirty {n : Nat} (h : (b.revealLine n).dirty = false) :
    b.dirty = false ∧ (b.revealLine n).lines = b.lines :=
  ⟨(dirty_revealLine b n).symm.trans h, congrArg Document.lines (document_revealLine b n)⟩

/-- A call that leaves the mark off has found it off, and has found the same lines. -/
theorem lines_call_of_dirty (hc : c ≠ .markSaved) (h : (b.call c).dirty = false) :
    b.dirty = false ∧ (b.call c).lines = b.lines := by
  cases c with
  | edit es =>
    cases es with
    | nil => exact ⟨h, rfl⟩
    | cons e es => cases h
  | reveal n => exact lines_revealLine_of_dirty h
  | resize height =>
    exact lines_revealLine_of_dirty (b := { b with viewportHeight := max height 1 }) h
  | undo => exact lines_undo_of_dirty h
  | redo => exact lines_redo_of_dirty h
  | markSaved => exact absurd rfl hc
  | select | scroll | style | copy | beginUndoGroup | endUndoGroup => exact ⟨h, rfl⟩

theorem lines_calls_of_dirty (hcs : ∀ c ∈ cs, c ≠ .markSaved) (h : (b.calls cs).dirty = false) :
    b.dirty = false ∧ (b.calls cs).lines = b.lines := by
  induction cs generalizing b with
  | nil => exact ⟨h, rfl⟩
  | cons c cs ih =>
    obtain ⟨hc, hcs⟩ := List.forall_mem_cons.1 hcs
    obtain ⟨hrest, hlines⟩ := ih hcs h
    obtain ⟨hfirst, hline⟩ := lines_call_of_dirty hc hrest
    exact ⟨hfirst, hlines.trans hline⟩

end Buffer

/-! ### The record -/

namespace Workspace

/-- The record after saving, if `saved` was on it before. -/
def savedBySave (w : Workspace) (saved : Lines) : Lines :=
  match w.save with
  | (_, none) => w.buffer.lines
  | (_, some _) => saved

/-- The record after a host command. -/
def savedByNamed (w : Workspace) (name : String) (saved : Lines) : Lines :=
  if name = "write" then w.savedBySave saved else saved

/-- The record after host commands. -/
def savedByBound : List String → Workspace → Lines → Lines
  | [], _, saved => saved
  | name :: names, w, saved =>
    match w.runNamed name [] with
    | (w', none) => savedByBound names w' (w.savedByNamed name saved)
    | (_, some _) => w.savedByNamed name saved

end Workspace

namespace Editor

variable (replay : Editor → Editor) (savedByReplay : Editor → Lines → Lines)

/-- The record after one run of a plan. -/
def savedByPlan (p : Plan) (e : Editor) (saved : Lines) : Lines :=
  match p.operator.action with
  | .hostCommands names => e.toWorkspace.savedByBound names saved
  | .repeatLast => savedByReplay e saved
  | _ => saved

/-- The record after the runs of a plan. -/
def savedByPlans (c : Command) (start : Mode) : (n : Nat) → Plan → Editor → Lines → Lines
  | 0, _, _, saved => saved
  | n + 1, p, e, saved =>
    match runPlan replay p e with
    | (_, some _) => savedByPlan savedByReplay p e saved
    | (x, none) =>
      if x.mode = start then
        match x.plan? c with
        | some q => savedByPlans c start n q x (savedByPlan savedByReplay p e saved)
        | none => savedByPlan savedByReplay p e saved
      else savedByPlan savedByReplay p e saved

/-- The record after a command. -/
def savedByRunWith (e : Editor) (c : Command) (saved : Lines) : Lines :=
  match e.plan? c with
  | none => saved
  | some p => savedByPlans replay savedByReplay c e.mode p.count p e saved

variable (e : Editor)

/-- The record after the last command has been repeated. -/
def savedByReplayLast (saved : Lines) : Lines :=
  match e.slots.last e.mode with
  | none => saved
  | some c => savedByRunWith id (fun _ saved => saved) e c saved

/-- The record after a command has been dispatched, if there is one. -/
def savedByDispatch? (c : Option Command) (saved : Lines) : Lines :=
  match c with
  | none => saved
  | some c => savedByRunWith replayLast savedByReplayLast (e.prepare c) c saved

/-- The record after a key has been interpreted. -/
def savedByKey (k : Char) (saved : Lines) : Lines :=
  match e.phase with
  | .insert _ => saved
  | .normal reading =>
    let (reading, command) := reading.read e.config k
    savedByDispatch? { e with phase := .normal reading } command saved
  | .visual anchor lineWise reading =>
    let (reading, command) := reading.read e.config k
    savedByDispatch? { e with phase := .visual anchor lineWise reading } command saved

/-- The record after keys have been interpreted. -/
def savedByKeys : List Char → Editor → Lines → Lines
  | [], _, saved => saved
  | k :: keys, e, saved => savedByKeys keys (e.typeKey k) (e.savedByKey k saved)

/-- The record after a gesture. -/
def savedByGesture (g : Gesture) (saved : Lines) : Lines :=
  match g with
  | .typing keys => if e.enabled then savedByKeys keys e saved else saved
  | .save => e.toWorkspace.savedBySave saved
  | _ => saved

end Editor

/-- The record after keys have been handled, if `saved` was on it before. -/
def Session.savedAfter (s : Session) (ks : List Key) (saved : Lines) : Lines :=
  match ks with
  | [] => saved
  | k :: ks => (s.handle k).1.savedAfter ks (s.savedByGesture (k.gesture s.mode) saved)

/-! ### Without the mark -/

namespace Workspace

variable {w w' : Workspace} {saved : Lines}

/-- The lines are those on record, unless there is the mark of unsaved changes. -/
def Clean (w : Workspace) (saved : Lines) : Prop := w.buffer.dirty = false → w.buffer.lines = saved

theorem Clean.calls (h : w.Clean saved) (cs : List Buffer.Call) (hcs : ∀ c ∈ cs, c ≠ .markSaved)
    (hw : w'.buffer = w.buffer.calls cs) : w'.Clean saved := by
  intro hdirty
  rw [hw] at hdirty ⊢
  obtain ⟨hbefore, hlines⟩ := Buffer.lines_calls_of_dirty hcs hdirty
  exact hlines.trans (h hbefore)

theorem Clean.save (h : w.Clean saved) : w.save.1.Clean (w.savedBySave saved) := by
  unfold savedBySave
  rcases hsave : w.save with ⟨w', _ | failure⟩
  · have hlines : w'.buffer.lines = w.buffer.lines := by
      unfold Workspace.save at hsave
      split at hsave
      · cases hsave
      · split at hsave <;> cases hsave
        rfl
    exact fun _ => hlines
  · have hbuffer : w'.buffer = w.buffer := by
      unfold Workspace.save at hsave
      split at hsave
      · cases hsave
        rfl
      · split at hsave <;> cases hsave
        rfl
    exact h.calls [] (by simp) hbuffer

theorem Clean.runNamed (h : w.Clean saved) (name : String) (arguments : List String) :
    (w.runNamed name arguments).1.Clean (w.savedByNamed name saved) := by
  unfold Workspace.runNamed savedByNamed
  split
  · next hname =>
    rw [if_neg (by rw [hname]; decide)]
    exact h.calls [.undo] (by simp) rfl
  split
  · next hname =>
    rw [if_neg (by rw [hname]; decide)]
    exact h.calls [.redo] (by simp) rfl
  split
  · next hname =>
    rw [if_neg (by rw [hname]; decide)]
    split
    · exact h
    · next n place _ => exact h.calls [.scroll n place] (by simp) rfl
  split
  · have hsave := h.save
    generalize w.save = result at hsave
    rcases result with ⟨w', _ | failure⟩
    · exact hsave
    · exact hsave
  · exact h

theorem Clean.runBound (h : w.Clean saved) (names : List String) :
    (Workspace.runBound names w).1.Clean (w.savedByBound names saved) := by
  induction names generalizing w saved with
  | nil => exact h
  | cons name names ih =>
    have hfirst := h.runNamed name []
    rw [Workspace.runBound, savedByBound]
    generalize w.runNamed name [] = result at hfirst
    rcases result with ⟨w', _ | failure⟩
    · exact ih hfirst
    · exact hfirst

end Workspace

namespace Editor

variable {e : Editor} {f : Editor → Editor} {saved : Lines} {c : Command} {p : Plan}
variable {replay : Editor → Editor} {savedByReplay : Editor → Lines → Lines}

/-- What makes plain calls only leaves the record right. -/
theorem clean_of_acts (h : e.toWorkspace.Clean saved) (hf : Acts false f e) :
    (f e).toWorkspace.Clean saved := by
  obtain ⟨cs, hcs, hbuffer, -⟩ := hf.exists_calls
  refine h.calls cs (fun c hc => ?_) hbuffer
  rintro rfl
  simpa [Buffer.Call.isPlain] using hcs _ hc

theorem clean_endUndoGroup (h : e.toWorkspace.Clean saved) :
    (e.mapBuffer Buffer.endUndoGroup).toWorkspace.Clean saved :=
  h.calls [.endUndoGroup] (by simp) rfl

theorem clean_runPlan (h : e.toWorkspace.Clean saved)
    (hreplay : ∀ {x saved}, x.toWorkspace.Clean saved →
      (replay x).toWorkspace.Clean (savedByReplay x saved)) (p : Plan) :
    (runPlan replay p e).1.toWorkspace.Clean (savedByPlan savedByReplay p e saved) := by
  have hleave (x : Editor) (ls : Lines) (hx : x.toWorkspace.Clean ls) :
      (if p.operator.kind = .edit ∧ x.mode = .visual then x.resumeNormal
        else x).toWorkspace.Clean ls := by
    split
    · exact clean_of_acts hx acts_resumeNormal
    · exact hx
  have hother (hrepeat : p.operator.action ≠ .repeatLast)
      (hhost : ∀ names, p.operator.action ≠ .hostCommands names) :
      (runPlan replay p e).1.toWorkspace.Clean saved := by
    have hcongr : runPlan replay p e = runPlan id p e := runPlan_congr hrepeat
    rw [hcongr]
    have hruns : Runs false (runPlan id p) e := runs_runPlan p (.refl e) fun _ => hhost
    exact clean_of_acts (f := fun x => (runPlan id p x).1) h hruns.1
  unfold savedByPlan
  split
  · next names haction =>
    refine hleave (Action.run replay p e).1 _ ?_
    unfold Action.run
    rw [haction]
    exact h.runBound names
  · next haction =>
    refine hleave (Action.run replay p e).1 _ ?_
    unfold Action.run
    rw [haction]
    exact hreplay h
  · next hhost hrepeat => exact hother hrepeat hhost

theorem clean_repeatPlan (h : e.toWorkspace.Clean saved)
    (hreplay : ∀ {x saved}, x.toWorkspace.Clean saved →
      (replay x).toWorkspace.Clean (savedByReplay x saved)) (start : Mode) (n : Nat) (p : Plan) :
    (repeatPlan replay c start n p e).toWorkspace.Clean
      (savedByPlans replay savedByReplay c start n p e saved) := by
  induction n generalizing e p saved with
  | zero => exact h
  | succ n ih =>
    have hfirst := clean_runPlan h hreplay p
    rw [repeatPlan, savedByPlans]
    generalize runPlan replay p e = result at hfirst
    rcases result with ⟨x, _ | failure⟩
    · dsimp only at hfirst ⊢
      by_cases hm : x.mode = start
      · rw [if_pos hm, if_pos hm]
        cases x.plan? c with
        | none => exact hfirst
        | some q => exact ih hfirst q
      · rw [if_neg hm, if_neg hm]
        exact hfirst
    · exact hfirst

theorem clean_runWith (h : e.toWorkspace.Clean saved)
    (hreplay : ∀ {x saved}, x.toWorkspace.Clean saved →
      (replay x).toWorkspace.Clean (savedByReplay x saved)) (c : Command) :
    (runWith replay e c).toWorkspace.Clean (savedByRunWith replay savedByReplay e c saved) := by
  unfold runWith savedByRunWith
  cases e.plan? c with
  | none => exact h
  | some p => exact clean_repeatPlan h hreplay e.mode p.count p

theorem clean_replayLast (h : e.toWorkspace.Clean saved) :
    e.replayLast.toWorkspace.Clean (e.savedByReplayLast saved) := by
  unfold replayLast savedByReplayLast
  cases e.slots.last e.mode with
  | none => exact h
  | some c => exact clean_runWith h (fun hx => hx) c

theorem clean_dispatch? (h : e.toWorkspace.Clean saved) (c : Option Command) :
    (e.dispatch? c).toWorkspace.Clean (e.savedByDispatch? c saved) := by
  cases c with
  | none => exact h
  | some c =>
    have hprepare : (e.prepare c).toWorkspace.Clean saved := by
      rw [prepare_eq]
      exact h.calls [.beginUndoGroup] (by simp) rfl
    have hrun := clean_runWith hprepare (fun hx => clean_replayLast hx) c
    show (e.dispatch c).toWorkspace.Clean _
    rw [dispatch_eq]
    dsimp only
    split
    · exact hrun
    · exact clean_endUndoGroup hrun

theorem clean_typeInserted (h : e.toWorkspace.Clean saved) (typed : EscapeReader) (k : Char) :
    (e.typeInserted typed k).toWorkspace.Clean saved := by
  let x := e.mapBuffer fun b => b.typeText [k]
  have htype : x.toWorkspace.Clean saved :=
    clean_of_acts (f := (·.mapBuffer fun b => b.typeText [k])) h (acts_typeText [k])
  have hback : x.takeBack.toWorkspace.Clean saved := clean_of_acts htype acts_takeBack
  have hleave : x.leaveInsert.toWorkspace.Clean saved := clean_endUndoGroup hback
  rw [typeInserted]
  split
  · exact hleave
  · exact htype

/-- **A key leaves the record right.** -/
theorem clean_typeKey (h : e.toWorkspace.Clean saved) (k : Char) :
    (e.typeKey k).toWorkspace.Clean (e.savedByKey k saved) := by
  have hphase (q : Phase) : ({ e with phase := q } : Editor).toWorkspace.Clean saved := h
  cases hp : e.phase with
  | insert typed =>
    simp only [typeKey, savedByKey, hp]
    exact clean_typeInserted h typed k
  | normal reading =>
    simp only [typeKey, savedByKey, hp]
    exact clean_dispatch? (hphase _) _
  | visual anchor lineWise reading =>
    simp only [typeKey, savedByKey, hp]
    exact clean_dispatch? (hphase _) _

theorem clean_foldl_typeKey (h : e.toWorkspace.Clean saved) (keys : List Char) :
    (keys.foldl typeKey e).toWorkspace.Clean (savedByKeys keys e saved) := by
  induction keys generalizing e saved with
  | nil => exact h
  | cons k keys ih => exact ih (clean_typeKey h k)

theorem clean_forceNormal (h : e.toWorkspace.Clean saved) :
    e.forceNormal.toWorkspace.Clean saved :=
  clean_endUndoGroup (clean_of_acts h acts_resumeNormal)

theorem clean_toggleEnabled (h : e.toWorkspace.Clean saved) :
    e.toggleEnabled.toWorkspace.Clean saved := by
  have hend : (e.toggleDetached.mapBuffer Buffer.endUndoGroup).toWorkspace.Clean saved :=
    clean_endUndoGroup (e := e.toggleDetached) h
  rw [toggleEnabled]
  split
  · exact clean_of_acts hend acts_resumeNormal
  · exact hend

end Editor

namespace Session

variable {s : Session} {saved : Lines}

/-- **A gesture leaves the record right.** -/
theorem clean_perform {e : Editor} (h : e.toWorkspace.Clean saved) (g : Gesture) :
    (perform e g).toWorkspace.Clean (e.savedByGesture g saved) := by
  cases g with
  | typing keys =>
    show (e.typeKeys keys).toWorkspace.Clean (if e.enabled then _ else _)
    unfold Editor.typeKeys
    split
    · exact Editor.clean_foldl_typeKey h keys
    · exact Editor.clean_of_acts (f := (·.mapBuffer fun b => b.typeText keys)) h
        (Editor.acts_typeText keys)
  | escape => exact Editor.clean_forceNormal h
  | backspace => exact Editor.clean_of_acts h Editor.acts_backspace
  | save =>
    have hsave := h.save
    show (saveAndTell e).toWorkspace.Clean _
    unfold saveAndTell
    generalize e.toWorkspace.save = result at hsave
    rcases result with ⟨w, _ | failure⟩
    · exact hsave
    · exact hsave
  | toggleEnabled => exact Editor.clean_toggleEnabled h
  | quit | unknown => exact h

/-! ### Asking to quit -/

theorem handle_of_quit {k : Key} (hquit : k.gesture s.mode = .quit) :
    s.handle k = if s.buffer.dirty ∧ !s.quitRefused then
      ({ s.toEditor.say quitWarning .warning with quitRefused := true }, false) else (s, true) := by
  rw [handle, hquit]

theorem handle_of_ne_quit {k : Key} (hquit : k.gesture s.mode ≠ .quit) :
    s.handle k =
      ({ perform s.toEditor (k.gesture s.mode) with quitRefused := false }, false) := by
  unfold handle
  split
  · next hgesture => exact absurd hgesture hquit
  · rfl

/-- A key that ends the session asks to quit, and changes nothing. -/
theorem of_handle_eq_true {k : Key} (hend : (s.handle k).2 = true) :
    k.gesture s.mode = .quit ∧ (s.handle k).1 = s ∧
      (s.buffer.dirty = true → s.quitRefused = true) := by
  by_cases hquit : k.gesture s.mode = .quit
  · rw [handle_of_quit hquit] at hend ⊢
    split at hend
    · cases hend
    · next hrefuse =>
      rw [if_neg hrefuse]
      refine ⟨hquit, rfl, fun hdirty => ?_⟩
      simpa [hdirty] using hrefuse
  · rw [handle_of_ne_quit hquit] at hend
    cases hend

/-- The last of the keys have asked to quit: one that was refused with the warning, and others that
were not. -/
inductive Warned (s : Session) : List Key → Prop where
  | refused {ks : List Key} {k : Key} (hquit : k.gesture (s.handleAll ks).mode = .quit)
      (hrefused : ((s.handleAll ks).handle k).2 = false)
      (hwarning : ((s.handleAll ks).handle k).1.message = some ⟨quitWarning, .warning⟩) :
      Warned s (ks ++ [k])
  | again {ks : List Key} {k : Key} (h : Warned s ks)
      (hend : ((s.handleAll ks).handle k).2 = true) : Warned s (ks ++ [k])

/-- Up to the first key that ends the session, a warning was given at the last key. -/
theorem Warned.exists_refused {ks : List Key} (h : s.Warned ks)
    (hopen : ∀ ks' k, ks' ++ [k] <+: ks → ((s.handleAll ks').handle k).2 = false) :
    ∃ before k, ks = before ++ [k] ∧ k.gesture (s.handleAll before).mode = .quit ∧
      ((s.handleAll before).handle k).2 = false ∧
      (s.handleAll ks).message = some ⟨quitWarning, .warning⟩ := by
  cases h with
  | @refused before k hquit hrefused hwarning =>
    exact ⟨before, k, rfl, hquit, hrefused, by rwa [handleAll_snoc]⟩
  | @again before k _ hend => cases hend.symm.trans (hopen before k (List.prefix_refl _))

theorem savedAfter_snoc (s : Session) (ks : List Key) (k : Key) (saved : Lines) :
    s.savedAfter (ks ++ [k]) saved = (s.handleAll ks).savedByGesture
      (k.gesture (s.handleAll ks).mode) (s.savedAfter ks saved) := by
  induction ks generalizing s saved with
  | nil => rfl
  | cons k' ks ih => exact ih (s.handle k').1 _

/-- After every run of keys the record is right, and a refusal has come with a warning. -/
theorem clean_and_warned (hquit : s.quitRefused = false) (ks : List Key) :
    (s.handleAll ks).toWorkspace.Clean (s.savedAfter ks s.lines) ∧
      ((s.handleAll ks).quitRefused = true → s.Warned ks) := by
  induction ks using List.reverseRecOn with
  | nil => exact ⟨fun _ => rfl, fun h => by cases hquit.symm.trans h⟩
  | append_singleton ks k ih =>
    obtain ⟨hclean, hwarned⟩ := ih
    rw [handleAll_snoc, savedAfter_snoc]
    by_cases hg : k.gesture (s.handleAll ks).mode = .quit
    · have hhandle := handle_of_quit hg
      rw [hg]
      by_cases hrefuse : (s.handleAll ks).buffer.dirty ∧ !(s.handleAll ks).quitRefused
      · rw [if_pos hrefuse] at hhandle
        exact ⟨by rw [hhandle]; exact hclean, fun _ =>
          .refused hg (by rw [hhandle]) (by rw [hhandle]; rfl)⟩
      · rw [if_neg hrefuse] at hhandle
        rw [hhandle]
        exact ⟨hclean, fun hrefused => .again (hwarned hrefused) (by rw [hhandle])⟩
    · rw [handle_of_ne_quit hg]
      exact ⟨clean_perform hclean _, fun hrefused => by cases hrefused⟩

/-- **No unsaved change is lost without a warning.**  When a key ends a session, the lines are those
of the last successful save, or the keys before it were a refused one that asked to quit and others
that did so again.  If no key before it has ended the session, it was the key right before it that
was refused, with the warning. -/
theorem end_saved_or_warned (hquit : s.quitRefused = false) {ks : List Key} {k : Key}
    (hend : ((s.handleAll ks).handle k).2 = true) :
    ((s.handleAll ks).lines = s.savedAfter ks s.lines ∨ s.Warned ks) ∧
    ((∀ ks' k', ks' ++ [k'] <+: ks → ((s.handleAll ks').handle k').2 = false) →
      (s.handleAll ks).lines = s.savedAfter ks s.lines ∨
      ∃ before q, ks = before ++ [q] ∧ q.gesture (s.handleAll before).mode = .quit ∧
        ((s.handleAll before).handle q).2 = false ∧
        (s.handleAll ks).message = some ⟨quitWarning, .warning⟩) := by
  obtain ⟨hclean, hwarned⟩ := clean_and_warned hquit ks
  obtain ⟨-, -, hrefused⟩ := of_handle_eq_true hend
  have hor : (s.handleAll ks).lines = s.savedAfter ks s.lines ∨ s.Warned ks := by
    cases hd : (s.handleAll ks).buffer.dirty with
    | false => exact .inl (hclean hd)
    | true => exact .inr (hwarned (hrefused hd))
  exact ⟨hor, fun hopen => hor.imp_right fun h => h.exists_refused hopen⟩

/-- A change saved by a key bound to `write`, another one, and the second of two keys that ask to
quit. -/
theorem end_saved_or_warned_write :
    let s := start ['a', 'b'] 5 { commandBindings := .ofList [("w", ["write"])] } {} (.memory none)
      (some ⟨"f"⟩)
    let ks : List Key := [.char 'x', .char 'w', .char 'x', .ctrl 'q']
    s.savedAfter ks s.lines = [['b']] ∧ (s.handleAll ks).lines = [[]] ∧
      ((s.handleAll ks).lines = s.savedAfter ks s.lines ∨ s.Warned ks) := by
  intro s ks
  have hend : ((s.handleAll ks).handle (.ctrl 'q')).2 = true := by decide +kernel
  exact ⟨by decide +kernel, by decide +kernel, (end_saved_or_warned rfl hend).1⟩

/-- The key that asks to quit, pressed a third time: the change is not saved, and the second time
the key was not refused. -/
theorem not_refused_before_end :
    let s := start ['a', 'b'] 5 {} {} (.memory none) none
    let ks : List Key := [.char 'x', .ctrl 'q', .ctrl 'q']
    ((s.handleAll ks).handle (.ctrl 'q')).2 = true ∧
      ¬((s.handleAll ks).lines = s.savedAfter ks s.lines ∨
        ∃ before q, ks = before ++ [q] ∧ ((s.handleAll before).handle q).2 = false) := by
  intro s ks
  have hend : ((s.handleAll ks).handle (.ctrl 'q')).2 = true := by decide +kernel
  have hunsaved : (s.handleAll ks).lines ≠ s.savedAfter ks s.lines := by decide +kernel
  have hagain : ((s.handleAll [.char 'x', .ctrl 'q']).handle (.ctrl 'q')).2 = true := by
    decide +kernel
  refine ⟨hend, ?_⟩
  rintro (hsaved | ⟨before, q, hks, hrefused⟩)
  · exact hunsaved hsaved
  · have hlast : [Key.char 'x', .ctrl 'q'] = before ∧ [Key.ctrl 'q'] = [q] :=
      List.append_inj' hks rfl
    obtain ⟨rfl, hq⟩ := hlast
    cases hq
    cases hagain.symm.trans hrefused

end Session

end ModalEditor
