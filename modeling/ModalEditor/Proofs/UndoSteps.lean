import ModalEditor.Proofs.Reachable

/-!
# One undo step per command

A `Ledger` goes along with a run of keys and writes down the text before each editing command: a
command with the insert mode that it opens, in which the text was edited at least once.  Outside
insert mode, undoing goes through these texts one by one, the newest first, as far back as the
history reaches, and then stops.

The invariant is `Ledger.Sound`, which each key keeps (`Ledger.sound_press`).  Outside insert mode
no undo group is open and the history holds the texts of the ledger (`Buffer.AtRest`).  In insert
mode the group of the command is open; it has recorded the text before the command if there was an
edit, and otherwise the text is still the one before the command (`Buffer.InGroup`).
-/

namespace ModalEditor

/-- The texts before the editing commands, with that of a command in progress if it has edited. -/
def stepTexts (edited : Bool) (start : List Char) (before : List (List Char)) :
    List (List Char) := if edited then start :: before else before

namespace History

variable {α : Type} {h : History α}

theorem checkpoint_begun (hl : h.limit ≠ 0) (hg : h.grouping = .begun) (x : α) :
    h.checkpoint x =
      { h with past := (x :: h.past).take h.limit, future := [], grouping := .recorded } := by
  simp only [checkpoint, if_neg hl, hg]

theorem checkpoint_recorded (hl : h.limit ≠ 0) (hg : h.grouping = .recorded) (x : α) :
    h.checkpoint x = { h with future := [] } := by
  simp only [checkpoint, if_neg hl, hg]

end History

namespace Buffer

variable {b : Buffer} {limit : Nat} {before : List (List Char)} {start : List Char} {edited : Bool}

/-! ### Undo groups -/

/-- No undo group is open, and the history holds documents with the texts `before`, as many as it
can. -/
structure AtRest (limit : Nat) (before : List (List Char)) (b : Buffer) : Prop where
  limit_eq : b.history.limit = limit
  past : b.history.past.map Document.text = before.take limit
  grouping : b.history.grouping = .closed

/-- An undo group is open since the text was `start`.  -/
structure InGroup (limit : Nat) (before : List (List Char)) (start : List Char) (edited : Bool)
    (b : Buffer) : Prop where
  limit_eq : b.history.limit = limit
  past : b.history.past.map Document.text = (stepTexts edited start before).take limit
  grouping : b.history.grouping = if edited then .recorded else .begun
  text : edited = false → b.text = start

theorem AtRest.beginUndoGroup (h : b.AtRest limit before) :
    b.beginUndoGroup.InGroup limit before b.text false := by
  obtain ⟨hlimit, hpast, hgrouping⟩ := h
  have hhistory : b.beginUndoGroup.history = { b.history with grouping := .begun } := by
    simp [Buffer.beginUndoGroup, History.beginGroup, hgrouping]
  exact ⟨by rw [hhistory, ← hlimit], by rw [hhistory]; exact hpast, by rw [hhistory]; rfl,
    fun _ => rfl⟩

theorem InGroup.endUndoGroup (h : b.InGroup limit before start edited) :
    b.endUndoGroup.AtRest limit (stepTexts edited start before) :=
  ⟨h.limit_eq, h.past, rfl⟩

/-- A plain call that is no edit leaves text and history alone. -/
theorem call_of_not_isEdit {c : Call} (hc : c.isPlain) (he : c.isEdit = false) :
    (b.call c).history = b.history ∧ (b.call c).text = b.text := by
  cases c with
  | edit es =>
    have hes : es.isEmpty := by simpa [Call.isEdit] using he
    simp [call, edit, hes]
  | reveal n => exact ⟨history_revealLine b n, by rw [text, call, document_revealLine]; rfl⟩
  | select | scroll | style | copy => exact ⟨rfl, rfl⟩
  | _ => simp [Call.isPlain] at hc

/-- In a group only the first edit records the text, the one before the command. -/
theorem InGroup.call (hl : 0 < limit) (h : b.InGroup limit before start edited) {c : Call}
    (hc : c.isPlain) : (b.call c).InGroup limit before start (edited || c.isEdit) := by
  cases he : c.isEdit with
  | false =>
    obtain ⟨hhistory, htext⟩ := call_of_not_isEdit (b := b) hc he
    rw [Bool.or_false]
    exact ⟨by rw [hhistory, h.limit_eq], by rw [hhistory, h.past], by rw [hhistory, h.grouping],
      fun hn => by rw [htext, h.text hn]⟩
  | true =>
    obtain ⟨hlimit, hpast, hgrouping, htext⟩ := h
    obtain ⟨es, rfl⟩ : ∃ es, c = .edit es := by
      cases c <;> first | exact ⟨_, rfl⟩ | simp [Call.isEdit] at he
    have hes : ¬es.isEmpty := by simpa [Call.isEdit] using he
    have hcall : (b.call (.edit es)).history = b.history.checkpoint b.document := by
      rw [Buffer.call, edit, if_neg hes]
    have hpos : b.history.limit ≠ 0 := by omega
    rw [Bool.or_true]
    cases edited with
    | true =>
      -- The text before the command is recorded already.
      rw [History.checkpoint_recorded hpos hgrouping] at hcall
      refine ⟨by rw [hcall, ← hlimit], ?_, by rw [hcall]; exact hgrouping, fun hn => by cases hn⟩
      rw [hcall]; exact hpast
    | false =>
      -- The first edit: the text is still the one before the command.
      rw [History.checkpoint_begun hpos hgrouping] at hcall
      have hstart : b.document.text = start := htext rfl
      refine ⟨by rw [hcall, ← hlimit], ?_, by rw [hcall]; rfl, fun hn => by cases hn⟩
      obtain ⟨m, rfl⟩ : ∃ m, limit = m + 1 := ⟨limit - 1, by omega⟩
      have hpast : b.history.past.map Document.text = before.take (m + 1) := hpast
      simp only [hcall, hlimit, stepTexts, if_true, List.take_succ_cons, List.map_cons,
        List.map_take, hpast, hstart, List.take_take, Nat.min_eq_left (Nat.le_succ m)]

theorem InGroup.calls (hl : 0 < limit) (h : b.InGroup limit before start edited) {cs : List Call}
    (hcs : ∀ c ∈ cs, c.isPlain) :
    (b.calls cs).InGroup limit before start (edited || cs.any Call.isEdit) := by
  induction cs generalizing b edited with
  | nil => simpa using h
  | cons c cs ih =>
    obtain ⟨hc, hcs⟩ := List.forall_mem_cons.1 hcs
    rw [List.any_cons, ← Bool.or_assoc]
    exact ih (h.call hl hc) hcs

/-! ### Undoing again and again -/

/-- Go back `n` times, and note for each time whether there was a step and the text then. -/
def undoTrace : Nat → Buffer → List (Bool × List Char)
  | 0, _ => []
  | n + 1, b => (b.undo.1, b.undo.2.text) :: undoTrace n b.undo.2

/-- Undoing goes through the documents of the history, and once more does nothing. -/
theorem undoTrace_past (b : Buffer) : undoTrace (b.history.past.length + 1) b =
    (b.history.past.map fun d => (true, d.text)) ++
      [(false, ((b.history.past.map Document.text).getLast?).getD b.text)] := by
  generalize hpast : b.history.past = ds
  induction ds generalizing b with
  | nil => simp [undoTrace, undo, History.undo, hpast, text]
  | cons d ds ih =>
    -- One step back leaves the older documents, and the induction goes on from there.
    have hundo : b.undo = (true, b.restore d
        { b.history.endGroup with past := ds, future := b.document :: b.history.future }) := by
      simp [undo, History.undo, hpast]
    have htext : b.undo.2.text = d.text := by
      rw [hundo, text, restore, revealCursor, document_revealLine]
    have hrest : b.undo.2.history.past = ds := by
      rw [hundo, restore, revealCursor, history_revealLine]
    rw [List.length_cons, undoTrace, ih _ hrest, htext, hundo]
    simp [List.getLast?_cons]

end Buffer

namespace Editor

variable {e : Editor} {f : Editor → Editor} {c : Command}
variable {limit : Nat} {before : List (List Char)} {start : List Char} {edited : Bool}

/-! ### Commands that run no host commands -/

/-- Keys are interpreted, and none of the commands that could be repeated runs host commands. -/
structure Tame (e : Editor) : Prop where
  enabled : e.enabled = true
  slots : SlotsAllow false e

theorem Acts.tame {host : Bool} (hf : Acts host f e) (h : Tame e) : Tame (f e) := by
  obtain ⟨henabled, hslots⟩ := h
  refine ⟨by rw [hf.enabled, henabled], fun m c hc => ?_⟩
  rw [hf.config]
  exact hslots m c (by rwa [← hf.slots])

theorem Tame.prepare (h : Tame e) (hc : Allows false e.config c) : Tame (e.prepare c) := by
  obtain ⟨henabled, hslots⟩ := h
  rw [prepare_eq]
  refine ⟨henabled, fun m d hd => ?_⟩
  dsimp only at hd ⊢
  split at hd
  · rw [RepeatSlots.last_record_eq] at hd
    split at hd
    · rwa [← Option.some.inj hd]
    · exact hslots m d hd
  · exact hslots m d hd

theorem Tame.dispatch (h : Tame e) (hc : Allows false e.config c) : Tame (e.dispatch c) := by
  have hprepare := h.prepare hc
  have hacts : Acts false (·.run c) (e.prepare c) :=
    acts_run (by rwa [config_prepare]) hprepare.slots
  have hrun := hacts.tame hprepare
  simp only [dispatch_eq]
  split
  · exact hrun
  · exact ⟨hrun.enabled, hrun.slots⟩

/-! ### Commands and undo groups -/

/-- With `edited` telling whether the command in progress has changed the text: in insert mode its
group is open, and otherwise it is over. -/
def Settled (limit : Nat) (before : List (List Char)) (start : List Char) (edited : Bool)
    (e : Editor) : Prop :=
  if e.mode = .insert then e.buffer.InGroup limit before start edited
  else e.buffer.AtRest limit (stepTexts edited start before)

theorem settled_of_insert (hm : e.mode = .insert)
    (h : e.buffer.InGroup limit before start edited) : Settled limit before start edited e := by
  rw [Settled, if_pos hm]; exact h

theorem settled_of_not_insert (hm : e.mode ≠ .insert)
    (h : e.buffer.AtRest limit (stepTexts edited start before)) :
    Settled limit before start edited e := by
  rw [Settled, if_neg hm]; exact h

/-- The change of the text shows in the mark of unsaved changes, if that is off before. -/
theorem Acts.inGroup (hl : 0 < limit) (hf : Acts false f e)
    (h : e.buffer.InGroup limit before start edited) :
    (f e).buffer.InGroup limit before start
      (edited || (f (e.setDirty false)).buffer.dirty) := by
  obtain ⟨cs, hcs, hbuffer, hv⟩ := hf.exists_calls
  have hplain : ∀ c ∈ cs, c.isPlain := fun c hc => by simpa using hcs c hc
  obtain ⟨w, hw, hfw⟩ := hv false
  have hdirty : w = cs.any Buffer.Call.isEdit := by
    have := Buffer.dirty_calls (b := e.buffer.setDirty false) hplain
    rw [hw] at this
    simpa [Buffer.setDirty] using this
  rw [hfw, hbuffer, show ((f e).setDirty w).buffer.dirty = w from rfl, hdirty]
  exact h.calls hl hplain

/-- A group ends with the command unless that has entered insert mode. -/
theorem settled_finish {x : Editor} (h : x.buffer.InGroup limit before start edited) :
    Settled limit before start edited
      (if x.mode = .insert then x else x.mapBuffer Buffer.endUndoGroup) := by
  by_cases hm : x.mode = .insert
  · rw [if_pos hm]; exact settled_of_insert hm h
  · rw [if_neg hm]; exact settled_of_not_insert hm h.endUndoGroup

theorem settled_dispatch (hl : 0 < limit) (ht : Tame e) (hc : Allows false e.config c)
    (h : e.buffer.AtRest limit before) :
    Settled limit before e.buffer.text ((e.setDirty false).dispatch c).buffer.dirty
      (e.dispatch c) := by
  have hprepare := ht.prepare hc
  have hacts : Acts false (·.run c) (e.prepare c) :=
    acts_run (by rwa [config_prepare]) hprepare.slots
  have hgroup : (e.prepare c).buffer.InGroup limit before e.buffer.text false := by
    rw [prepare_eq]; exact h.beginUndoGroup
  -- Preparing makes no edit, so the mark is off when the command begins to run.
  have hclean : (e.setDirty false).prepare c = (e.prepare c).setDirty false := by
    rw [prepare_eq, prepare_eq]; rfl
  have hdirty : ((e.setDirty false).dispatch c).buffer.dirty =
      (((e.prepare c).setDirty false).run c).buffer.dirty := by
    simp only [dispatch_eq, hclean]
    split <;> rfl
  rw [hdirty, dispatch_eq]
  exact settled_finish (by simpa using hacts.inGroup hl hgroup)

theorem settled_typeInserted (hl : 0 < limit) (typed : EscapeReader) (c : Char)
    (h : e.buffer.InGroup limit before start edited) :
    Settled limit before start
      (edited || ((e.setDirty false).typeInserted typed c).buffer.dirty)
      (e.typeInserted typed c) := by
  have htype : Acts false (·.mapBuffer fun b => b.typeText [c]) e := acts_typeText [c]
  by_cases hdone : (typed.read e.escape c).isComplete e.escape
  · -- The escape sequence is taken back and the group ends.
    have hleave (x : Editor) (hx : x.escape = e.escape) : x.typeInserted typed c =
        (x.mapBuffer fun b => b.typeText [c]).takeBack.mapBuffer Buffer.endUndoGroup := by
      rw [← hx] at hdone
      unfold typeInserted
      exact if_pos hdone
    have hgroup := (htype.trans acts_takeBack).inGroup hl h
    have hmode (x : Editor) : (x.takeBack.mapBuffer Buffer.endUndoGroup).mode ≠ .insert := by
      rw [show (x.takeBack.mapBuffer _).mode = .normal from mode_resumeNormal _]; decide
    rw [hleave e rfl, hleave (e.setDirty false) rfl]
    exact settled_of_not_insert (hmode _) hgroup.endUndoGroup
  · -- Insert mode goes on.
    have hstay (x : Editor) (hx : x.escape = e.escape) : x.typeInserted typed c =
        { x.mapBuffer fun b => b.typeText [c] with phase := .insert (typed.read x.escape c) } := by
      rw [← hx] at hdone
      unfold typeInserted
      exact if_neg hdone
    rw [hstay e rfl, hstay (e.setDirty false) rfl]
    exact settled_of_insert rfl (htype.inGroup hl h)

/-- The command that the key `c` completes. -/
def completes? (e : Editor) (c : Char) : Option Command :=
  match e.phase with
  | .insert _ => none
  | .normal reading => (reading.read e.config c).2
  | .visual _ _ reading => (reading.read e.config c).2

/-- Outside insert mode, a key is read and the command that it completes is dispatched. -/
theorem typeKey_eq (hm : e.mode ≠ .insert) (c : Char) : ∃ p : Phase, p.mode = e.mode ∧
    ∀ x : Editor, x.phase = e.phase → x.config = e.config →
      x.typeKey c = { x with phase := p }.dispatch? (e.completes? c) := by
  cases hp : e.phase with
  | insert typed => exact absurd (show e.phase.mode = .insert by rw [hp]; rfl) hm
  | normal reading =>
    refine ⟨.normal (reading.read e.config c).1, by rw [mode, hp]; rfl, fun x hx hconfig => ?_⟩
    simp only [typeKey, completes?, hp, hx, hconfig]
  | visual anchor lineWise reading =>
    refine ⟨.visual anchor lineWise (reading.read e.config c).1, by rw [mode, hp]; rfl,
      fun x hx hconfig => ?_⟩
    simp only [typeKey, completes?, hp, hx, hconfig]

theorem settled_typeKey_of_insert (hl : 0 < limit) (hm : e.mode = .insert) (c : Char)
    (h : e.buffer.InGroup limit before start edited) :
    Settled limit before start (edited || ((e.setDirty false).typeKey c).buffer.dirty)
      (e.typeKey c) := by
  obtain ⟨typed, hp⟩ := Phase.exists_insert hm
  have htype := settled_typeInserted hl typed c h
  simpa only [typeKey, hp, show (e.setDirty false).phase = _ from hp] using htype

theorem settled_typeKey (hl : 0 < limit) (hm : e.mode ≠ .insert) (c : Char) (ht : Tame e)
    (hc : ∀ d, e.completes? c = some d → Allows false e.config d)
    (h : e.buffer.AtRest limit before) :
    Tame (e.typeKey c) ∧ Settled limit before e.buffer.text
      ((e.setDirty false).typeKey c).buffer.dirty (e.typeKey c) := by
  obtain ⟨p, hp, htype⟩ := typeKey_eq hm c
  have ht' : Tame { e with phase := p } := ⟨ht.enabled, ht.slots⟩
  rw [htype e rfl rfl, htype (e.setDirty false) rfl rfl]
  cases hd : e.completes? c with
  | none => exact ⟨ht', settled_of_not_insert (by rwa [← hp] at hm) h⟩
  | some d =>
    exact ⟨ht'.dispatch (hc d hd),
      settled_dispatch (e := { e with phase := p }) hl ht' (hc d hd) h⟩

/-- Returning to normal mode is no change of the text; it ends the group. -/
theorem forceNormal_buffer (e : Editor) : e.forceNormal.mode = .normal ∧
    e.forceNormal.buffer.history = { e.buffer.history with grouping := .closed } ∧
    e.forceNormal.buffer.text = e.buffer.text ∧ e.forceNormal.buffer.dirty = e.buffer.dirty := by
  refine ⟨mode_resumeNormal e, ?_⟩
  cases h : e.phase <;> simp only [forceNormal, resumeNormal, h] <;> exact ⟨rfl, rfl, rfl⟩

theorem settled_forceNormal (h : e.buffer.history.limit = limit)
    (hpast : e.buffer.history.past.map Document.text =
      (stepTexts edited start before).take limit) :
    Settled limit before start (edited || (e.setDirty false).forceNormal.buffer.dirty)
      e.forceNormal := by
  obtain ⟨hmode, hhistory, -, -⟩ := e.forceNormal_buffer
  obtain ⟨-, -, -, hdirty⟩ := (e.setDirty false).forceNormal_buffer
  rw [hdirty, show (e.setDirty false).buffer.dirty = false from rfl, Bool.or_false]
  exact settled_of_not_insert (by rw [hmode]; decide)
    ⟨by rw [hhistory, ← h], by rw [hhistory, ← hpast], by rw [hhistory]⟩

theorem Tame.forceNormal (h : Tame e) : Tame e.forceNormal :=
  have hresume := (acts_resumeNormal : Acts false resumeNormal e).tame h
  ⟨hresume.enabled, hresume.slots⟩

theorem Tame.typeKey_of_insert (h : Tame e) (hm : e.mode = .insert) (c : Char) :
    Tame (e.typeKey c) := by
  obtain ⟨typed, hp⟩ := Phase.exists_insert hm
  have htype := (acts_typeText [c] : Acts false _ e).tame h
  have hback := (acts_takeBack : Acts false _ _).tame htype
  simp only [typeKey, hp, typeInserted]
  split
  · exact ⟨hback.enabled, hback.slots⟩
  · exact ⟨htype.enabled, htype.slots⟩

end Editor

/-- Characters, escape, and backspace. -/
def Key.isTyping : Key → Bool
  | .char _ | .escape | .backspace => true
  | _ => false

namespace Session

/-- The session with no mark of unsaved changes. -/
def unmarked (s : Session) : Session := { s with toEditor := s.setDirty false }

/-- The key edits the text: without a mark of unsaved changes before, there is one after.  Where no
host commands are run, nothing but edits puts the mark on, and nothing takes it off. -/
def edits (s : Session) (k : Key) : Bool := (s.unmarked.handle k).1.buffer.dirty

/-- The command that a key completes. -/
def completes? (s : Session) : Key → Option Command
  | .char c => s.toEditor.completes? c
  | _ => none

/-- No key of a run completes a command that runs host commands. -/
def HostFree : Session → List Key → Prop
  | _, [] => True
  | s, k :: ks =>
    (∀ c ∈ s.completes? k, s.config.hostCommands? c.operator = none) ∧
      HostFree (s.handle k).1 ks

instance decidableHostFree : (s : Session) → (ks : List Key) → Decidable (s.HostFree ks)
  | _, [] => .isTrue trivial
  | s, k :: ks =>
    have := decidableHostFree (s.handle k).1 ks
    inferInstanceAs (Decidable (_ ∧ _))

/-- The session holds a text and nothing has been done yet; its history keeps `limit` steps. -/
def Fresh (limit : Nat) (s : Session) : Prop :=
  ∃ text config files clipboard path, s = start text limit config files clipboard path

theorem edits_char {s : Session} (h : s.enabled = true) (c : Char) :
    s.edits (.char c) = ((s.toEditor.setDirty false).typeKey c).buffer.dirty :=
  congrArg (·.buffer.dirty) (handle_char (s := s.unmarked) h c)

theorem edits_backspace (s : Session) : s.edits .backspace =
    if s.mode = .insert then ((s.toEditor.setDirty false).mapBuffer Buffer.backspace).buffer.dirty
    else false := by
  rw [edits, handle_backspace]
  by_cases hm : s.mode = .insert
  · rw [if_pos hm, if_pos (show s.unmarked.mode = .insert from hm)]; rfl
  · rw [if_neg hm, if_neg (show s.unmarked.mode ≠ .insert from hm)]; rfl

end Session

/-- The account of a run: the session it has led to, and the texts before the editing commands. -/
structure Ledger where
  session : Session
  /-- The texts before the editing commands that are over, the last of them first. -/
  before : List (List Char) := []
  /-- The text before the command in progress. -/
  start : List Char
  /-- The command in progress has changed the text. -/
  edited : Bool := false

namespace Ledger

variable {l : Ledger} {limit : Nat}

/-- The ledger after a key.  Outside insert mode a key may complete a command, and this begins
then; it is over as soon as the mode is not insert mode. -/
def press (l : Ledger) (k : Key) : Ledger :=
  let inside := l.session.mode = .insert
  let start := if inside then l.start else l.session.buffer.text
  let edited := (decide inside && l.edited) || l.session.edits k
  let session := (l.session.handle k).1
  if session.mode = .insert then { l with session, start, edited }
  else { session, before := stepTexts edited start l.before, start }

/-- The ledger of a run of keys. -/
def run (s : Session) (ks : List Key) : Ledger :=
  ks.foldl press { session := s, start := s.buffer.text }

/-- The history is what the ledger says, and nothing can run host commands. -/
structure Sound (limit : Nat) (l : Ledger) : Prop where
  tame : l.session.Tame
  inside : l.session.mode = .insert →
    l.session.buffer.InGroup limit l.before l.start l.edited
  outside : l.session.mode ≠ .insert → l.session.buffer.AtRest limit l.before

/-- What a key of a run does to the editor. -/
theorem settled_handle (hl : 0 < limit) (h : l.Sound limit) {k : Key} (hk : k.isTyping)
    (hc : ∀ c ∈ l.session.completes? k, l.session.config.hostCommands? c.operator = none) :
    (l.session.handle k).1.Tame ∧ Editor.Settled limit l.before
      (if l.session.mode = .insert then l.start else l.session.buffer.text)
      ((decide (l.session.mode = .insert) && l.edited) || l.session.edits k)
      (l.session.handle k).1.toEditor := by
  obtain ⟨htame, hinside, houtside⟩ := h
  by_cases hm : l.session.mode = .insert
  · -- The command that has entered insert mode goes on, or ends with this key.
    have hgroup := hinside hm
    rw [if_pos hm, decide_eq_true hm, Bool.true_and]
    cases k with
    | char c =>
      rw [Session.handle_char htame.enabled, Session.edits_char htame.enabled]
      exact ⟨htame.typeKey_of_insert hm c, Editor.settled_typeKey_of_insert hl hm c hgroup⟩
    | escape => exact ⟨htame.forceNormal, Editor.settled_forceNormal hgroup.limit_eq hgroup.past⟩
    | backspace =>
      have hacts : Editor.Acts false (·.mapBuffer Buffer.backspace) l.session.toEditor :=
        Editor.acts_backspace
      rw [Session.handle_backspace, if_pos hm, Session.edits_backspace, if_pos hm]
      exact ⟨hacts.tame htame, Editor.settled_of_insert hm (hacts.inGroup hl hgroup)⟩
    | _ => cases hk
  · -- The key may complete a command, which begins and perhaps ends with it.
    have hrest := houtside hm
    rw [if_neg hm, decide_eq_false hm, Bool.false_and, Bool.false_or]
    cases k with
    | char c =>
      rw [Session.handle_char htame.enabled, Session.edits_char htame.enabled]
      exact Editor.settled_typeKey hl hm c htame (fun d hd _ => hc d hd) hrest
    | escape =>
      have hescape : Editor.Settled limit l.before l.session.buffer.text
          (false || l.session.edits .escape) l.session.forceNormal :=
        Editor.settled_forceNormal hrest.limit_eq hrest.past
      exact ⟨htame.forceNormal, by rwa [Bool.false_or] at hescape⟩
    | backspace =>
      rw [Session.handle_backspace, if_neg hm, Session.edits_backspace, if_neg hm]
      exact ⟨htame, Editor.settled_of_not_insert hm hrest⟩
    | _ => cases hk

theorem sound_press (hl : 0 < limit) (h : l.Sound limit) {k : Key} (hk : k.isTyping)
    (hc : ∀ c ∈ l.session.completes? k, l.session.config.hostCommands? c.operator = none) :
    (l.press k).Sound limit := by
  obtain ⟨htame, hsettled⟩ := settled_handle hl h hk hc
  rw [press]
  by_cases hm : (l.session.handle k).1.mode = .insert
  · rw [Editor.Settled, if_pos hm] at hsettled
    simp only [if_pos hm]
    exact ⟨htame, fun _ => hsettled, fun hn => absurd hm hn⟩
  · rw [Editor.Settled, if_neg hm] at hsettled
    simp only [if_neg hm]
    exact ⟨htame, fun hn => absurd hn hm, fun _ => hsettled⟩

theorem session_press (l : Ledger) (k : Key) : (l.press k).session = (l.session.handle k).1 := by
  rw [press]
  by_cases hm : (l.session.handle k).1.mode = .insert
  · simp only [if_pos hm]
  · simp only [if_neg hm]

/-- The ledger of a run goes along with the run. -/
theorem session_foldl_press (l : Ledger) (ks : List Key) :
    (ks.foldl press l).session = l.session.handleAll ks := by
  induction ks generalizing l with
  | nil => rfl
  | cons k ks ih => rw [List.foldl_cons, ih, session_press]; rfl

theorem sound_foldl_press (hl : 0 < limit) (h : l.Sound limit) {ks : List Key}
    (hk : ∀ k ∈ ks, k.isTyping) (hfree : l.session.HostFree ks) :
    (ks.foldl press l).Sound limit := by
  induction ks generalizing l with
  | nil => exact h
  | cons k ks ih =>
    obtain ⟨hk, hks⟩ := List.forall_mem_cons.1 hk
    obtain ⟨hc, hfree⟩ := hfree
    refine ih (sound_press hl h hk hc) hks ?_
    rwa [session_press]

theorem sound_start {s : Session} (hs : s.Fresh limit) (start : List Char) :
    Sound limit { session := s, start } := by
  obtain ⟨text, config, files, clipboard, path, rfl⟩ := hs
  refine ⟨⟨rfl, fun m c hc => ?_⟩, fun hm => ?_, fun _ => ⟨rfl, ?_, rfl⟩⟩
  · cases m <;> cases hc
  · cases hm
  · simp [Session.start]

/-- **One undo step per command.**  In a run of characters, escapes and backspaces in which no host
commands are run, whenever the mode is not insert mode, undoing shows the texts from before the
editing commands, the last first, for as many as the history keeps; after that there is nothing to
undo. -/
theorem undoTrace_handleAll {s : Session} (hs : s.Fresh limit) (hl : 1 ≤ limit) {ks : List Key}
    (hk : ∀ k ∈ ks, k.isTyping) (hfree : s.HostFree ks) (hm : (s.handleAll ks).mode ≠ .insert) :
    (s.handleAll ks).buffer.undoTrace (min (run s ks).before.length limit + 1) =
      (((run s ks).before.take limit).map fun t => (true, t)) ++
        [(false, (((run s ks).before.take limit).getLast?).getD (s.handleAll ks).buffer.text)] := by
  have hsound : (run s ks).Sound limit := sound_foldl_press hl (sound_start hs _) hk hfree
  have hsession : (run s ks).session = s.handleAll ks := session_foldl_press ..
  obtain ⟨-, hpast, -⟩ := hsound.outside (by rwa [hsession])
  rw [hsession] at hpast
  have hlength : (s.handleAll ks).buffer.history.past.length =
      min (run s ks).before.length limit := by
    rw [← List.length_map Document.text, hpast, List.length_take, Nat.min_comm]
  have hmap : (s.handleAll ks).buffer.history.past.map (fun d => (true, d.text)) =
      ((run s ks).before.take limit).map fun t => (true, t) := by
    rw [← hpast, List.map_map]; rfl
  have htrace := (s.handleAll ks).buffer.undoTrace_past
  rwa [hlength, hpast, hmap] at htrace

/-- Three editing commands, of which the history keeps two: a deleted character, an insertion that
the escape sequence ends, and a counted deletion. -/
theorem undoTrace_handleAll_three :
    let s := Session.start ['a', 'b', 'c', 'd'] 2 {} {} (.memory none) none
    let ks : List Key := [.char 'x', .char 'i', .char 'q', .char 'j', .char 'k', .char 'l',
      .char '2', .char 'x', .escape]
    s.HostFree ks ∧ (run s ks).before.length = 3 ∧
      (s.handleAll ks).buffer.undoTrace 3 =
        [(true, ['q', 'b', 'c', 'd']), (true, ['b', 'c', 'd']), (false, ['b', 'c', 'd'])] := by
  intro s ks
  have hfree : s.HostFree ks := by decide +kernel
  have hmode : (s.handleAll ks).mode ≠ .insert := by decide +kernel
  have hbefore : (run s ks).before =
      [['q', 'b', 'c', 'd'], ['b', 'c', 'd'], ['a', 'b', 'c', 'd']] := by decide +kernel
  have htrace := undoTrace_handleAll ⟨_, _, _, _, _, rfl⟩ (by decide) (by decide) hfree hmode
  have hlength : (run s ks).before.length = 3 := by rw [hbefore]; rfl
  rw [hlength, hbefore] at htrace
  refine ⟨hfree, hlength, ?_⟩
  rw [show min 3 2 + 1 = 3 from rfl] at htrace
  rw [htrace]
  simp

end Ledger

end ModalEditor
