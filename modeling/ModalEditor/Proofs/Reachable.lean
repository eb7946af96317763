import ModalEditor.Keyboard.Script
import ModalEditor.Proofs.Footprint
import ModalEditor.Session

/-!
# Reachable sessions

`Session.Reachable` are the sessions that begin with a text and go on by any operations in any
order: calls on the buffer with whatever arguments, host commands, keys and scripts, single
commands and actions with whatever targets, and changes of mode from outside.

In every one of them the buffer is well formed (`Session.Reachable.buffer_wellFormed`): each
operation keeps it so (`Session.wellFormed_operate`), by the calls it makes.
-/

namespace ModalEditor

/-- What can be done with a session. -/
inductive Operation where
  -- to the buffer
  | call (c : Buffer.Call)
  | setCursor (p : Position)
  | typeText (text : List Char)
  | backspace
  | withUndoLimit (limit : Nat)
  | save
  | runNamed (name : String) (arguments : List String)
  -- to the mode and what is remembered
  | enterNormal
  | enterInsert
  | enterVisual (lineWise : Bool)
  | resumeNormal
  | moveTo (p : Position)
  | store (c : Clipping)
  | record (m : Mode) (c : Command)
  | dropPending
  | say (text : String) (severity : Severity)
  | clearMessage
  -- to the interpreter
  | typeKeys (text : List Char)
  | forceNormal
  | toggleEnabled
  | toggleDetached
  | run (c : Command)
  | runPlan (p : Plan)
  -- at the keyboard
  | press (k : Key)
  | script (text : List Char)

namespace Editor

variable {e : Editor}

theorem slotsAllow_host (e : Editor) : SlotsAllow true e := fun _ _ _ h => by cases h

theorem wellFormed_run (h : e.buffer.WellFormed) (c : Command) : (e.run c).buffer.WellFormed :=
  (acts_run (fun h => by cases h) e.slotsAllow_host : Acts true (·.run c) e).wellFormed h

theorem wellFormed_dispatch (h : e.buffer.WellFormed) (c : Command) :
    (e.dispatch c).buffer.WellFormed := by
  have hprepare : (e.prepare c).buffer.WellFormed := by
    rw [prepare_eq]; exact Buffer.wellFormed_beginUndoGroup h
  have hrun := wellFormed_run hprepare c
  simp only [dispatch_eq]
  split
  · exact hrun
  · exact Buffer.wellFormed_call hrun .endUndoGroup

theorem wellFormed_resumeNormal (h : e.buffer.WellFormed) : e.resumeNormal.buffer.WellFormed :=
  (acts_resumeNormal : Acts true resumeNormal e).wellFormed h

theorem wellFormed_forceNormal (h : e.buffer.WellFormed) : e.forceNormal.buffer.WellFormed :=
  Buffer.wellFormed_call (wellFormed_resumeNormal h) .endUndoGroup

theorem wellFormed_toggleEnabled (h : e.buffer.WellFormed) :
    e.toggleEnabled.buffer.WellFormed := by
  have hend : (e.buffer.call .endUndoGroup).WellFormed := Buffer.wellFormed_call h _
  rw [toggleEnabled]
  split
  · exact wellFormed_resumeNormal hend
  · exact Buffer.wellFormed_call hend (.style .line)

theorem wellFormed_typeText (h : e.buffer.WellFormed) (text : List Char) :
    (e.buffer.typeText text).WellFormed :=
  (acts_typeText text : Acts true _ e).wellFormed h

theorem wellFormed_typeInserted (h : e.buffer.WellFormed) (typed : EscapeReader) (c : Char) :
    (e.typeInserted typed c).buffer.WellFormed := by
  let e₁ := e.mapBuffer fun b => b.typeText [c]
  have h₁ : e₁.buffer.WellFormed := wellFormed_typeText h [c]
  simp only [typeInserted]
  split
  · exact Buffer.wellFormed_call ((acts_takeBack : Acts true _ e₁).wellFormed h₁) .endUndoGroup
  · exact h₁

/-- Interpreting a key keeps the buffer well formed. -/
theorem wellFormed_typeKey (h : e.buffer.WellFormed) (c : Char) :
    (e.typeKey c).buffer.WellFormed := by
  have hdispatch (p : Phase) (o : Option Command) :
      ({ e with phase := p }.dispatch? o).buffer.WellFormed := by
    cases o with
    | none => exact h
    | some d => exact wellFormed_dispatch (e := { e with phase := p }) h d
  cases hp : e.phase with
  | insert typed => simpa only [typeKey, hp] using wellFormed_typeInserted h typed c
  | normal reading =>
    simp only [typeKey, hp]
    exact hdispatch _ _
  | visual anchor lineWise reading =>
    simp only [typeKey, hp]
    exact hdispatch _ _

theorem wellFormed_typeKeys (h : e.buffer.WellFormed) (text : List Char) :
    (e.typeKeys text).buffer.WellFormed := by
  have hkeys (x : Editor) (hx : x.buffer.WellFormed) :
      (text.foldl typeKey x).buffer.WellFormed := by
    induction text generalizing x with
    | nil => exact hx
    | cons c cs ih => exact ih (x.typeKey c) (wellFormed_typeKey hx c)
  rw [typeKeys]
  split
  · exact hkeys e h
  · exact wellFormed_typeText h text

theorem wellFormed_runScript (h : e.buffer.WellFormed) (script : List Char) :
    (e.runScript script).buffer.WellFormed := by
  rw [runScript]
  induction ScriptStep.ofScript script generalizing e with
  | nil => exact h
  | cons step steps ih =>
    refine ih (?_ : (e.runStep step).buffer.WellFormed)
    cases step with
    | keys text => exact wellFormed_typeKeys h text
    | escape => exact wellFormed_forceNormal h

theorem wellFormed_runPlan (h : e.buffer.WellFormed) (p : Plan) :
    (runPlan replayLast p e).1.buffer.WellFormed :=
  (runs_runPlan p (acts_replayLast e.slotsAllow_host) (fun h => by cases h)).1.wellFormed h

/-! ### Settings -/

/-- Commands leave the settings alone. -/
theorem settings_dispatch (e : Editor) (c : Command) :
    (e.dispatch c).config = e.config ∧ (e.dispatch c).enabled = e.enabled := by
  have hrun : Acts true (·.run c) (e.prepare c) :=
    acts_run (fun h => by cases h) (slotsAllow_host _)
  have hconfig : ((e.prepare c).run c).config = e.config := by
    rw [hrun.config, prepare_eq]
  have henabled : ((e.prepare c).run c).enabled = e.enabled := by
    rw [hrun.enabled, prepare_eq]
  simp only [dispatch_eq]
  split <;> exact ⟨hconfig, henabled⟩

theorem settings_typeInserted (e : Editor) (typed : EscapeReader) (c : Char) :
    (e.typeInserted typed c).config = e.config ∧ (e.typeInserted typed c).enabled = e.enabled := by
  have htype : Acts true (·.mapBuffer fun b => b.typeText [c]) e := acts_typeText [c]
  have hback := htype.trans (g := takeBack) acts_takeBack
  rw [typeInserted]
  split
  · exact ⟨hback.config, hback.enabled⟩
  · exact ⟨htype.config, htype.enabled⟩

theorem settings_typeKey (e : Editor) (c : Char) :
    (e.typeKey c).config = e.config ∧ (e.typeKey c).enabled = e.enabled := by
  have hdispatch (p : Phase) (o : Option Command) :
      ({ e with phase := p }.dispatch? o).config = e.config ∧
        ({ e with phase := p }.dispatch? o).enabled = e.enabled := by
    cases o with
    | none => exact ⟨rfl, rfl⟩
    | some d => exact settings_dispatch { e with phase := p } d
  cases hp : e.phase with
  | insert typed => simpa only [typeKey, hp] using settings_typeInserted e typed c
  | normal | visual =>
    simp only [typeKey, hp]
    exact hdispatch _ _

theorem settings_foldl_typeKey (keys : List Char) (e : Editor) :
    (keys.foldl typeKey e).config = e.config ∧ (keys.foldl typeKey e).enabled = e.enabled := by
  induction keys generalizing e with
  | nil => exact ⟨rfl, rfl⟩
  | cons k keys ih =>
    obtain ⟨hconfig, henabled⟩ := settings_typeKey e k
    exact ⟨(ih _).1.trans hconfig, (ih _).2.trans henabled⟩

end Editor

namespace Workspace

variable {w : Workspace}

theorem wellFormed_save (h : w.buffer.WellFormed) : w.save.1.buffer.WellFormed := by
  obtain ⟨cs, hcs⟩ := w.save_calls
  have hsave : w.save = _ := hcs w.buffer.dirty
  rw [hsave]
  exact Buffer.wellFormed_calls h cs

theorem wellFormed_runNamed (h : w.buffer.WellFormed) (name : String) (arguments : List String) :
    (w.runNamed name arguments).1.buffer.WellFormed := by
  obtain ⟨cs, hcs⟩ := w.runNamed_calls name arguments
  have hrun : w.runNamed name arguments = _ := hcs w.buffer.dirty
  rw [hrun]
  exact Buffer.wellFormed_calls h cs

end Workspace

/-- The editor waits for a command in normal mode. -/
structure Editor.Waiting (e : Editor) : Prop where
  wellFormed : e.buffer.document.WellFormed
  enabled : e.enabled = true
  phase : e.phase = .normal .initial

theorem Phase.eq_initial {p : Phase} (hmode : p.mode = .normal) (hpending : p.pending = []) :
    p = .normal .initial := by
  cases p with
  | normal r =>
    cases r with
    | operator count => rw [show count = [] from hpending]; rfl
    | motion => simp [pending, NormalReader.pending] at hpending
    | argument count op motion =>
      cases motion <;> simp [pending, NormalReader.pending] at hpending
  | insert | visual => cases hmode

theorem Phase.exists_insert {p : Phase} (hmode : p.mode = .insert) :
    ∃ typed, p = .insert typed := by
  cases p with
  | insert typed => exact ⟨typed, rfl⟩
  | normal | visual => cases hmode

namespace Session

variable {s : Session}

/-- The session after an operation. -/
def operate (s : Session) : Operation → Session
  | .call c => { s with buffer := s.buffer.call c }
  | .setCursor p => { s with buffer := s.buffer.setCursor p }
  | .typeText text => { s with buffer := s.buffer.typeText text }
  | .backspace => { s with buffer := s.buffer.backspace }
  | .withUndoLimit limit => { s with buffer := s.buffer.withUndoLimit limit }
  | .save => { s with toWorkspace := s.toWorkspace.save.1 }
  | .runNamed name arguments => { s with toWorkspace := (s.toWorkspace.runNamed name arguments).1 }
  | .enterNormal => { s with toEditor := s.enterNormal }
  | .enterInsert => { s with toEditor := s.enterInsert }
  | .enterVisual lineWise => { s with toEditor := s.enterVisual lineWise }
  | .resumeNormal => { s with toEditor := s.resumeNormal }
  | .moveTo p => { s with toEditor := s.moveTo p }
  | .store c => { s with toEditor := s.toEditor.store c }
  | .record m c => { s with toEditor := s.toEditor.record m c }
  | .dropPending => { s with toEditor := s.dropPending }
  | .say text severity => { s with toEditor := s.say text severity }
  | .clearMessage => { s with toEditor := s.clearMessage }
  | .typeKeys text => { s with toEditor := s.typeKeys text }
  | .forceNormal => { s with toEditor := s.forceNormal }
  | .toggleEnabled => { s with toEditor := s.toggleEnabled }
  | .toggleDetached => { s with toEditor := s.toggleDetached }
  | .run c => { s with toEditor := s.toEditor.run c }
  | .runPlan p => { s with toEditor := (Editor.runPlan Editor.replayLast p s.toEditor).1 }
  | .press k => (s.handle k).1
  | .script text => { s with toEditor := s.runScript text }

/-! ### Runs of keys -/

/-- The session after a run of keys. -/
def handleAll (s : Session) (ks : List Key) : Session := ks.foldl (fun s k => (s.handle k).1) s

theorem handleAll_snoc (s : Session) (ks : List Key) (k : Key) :
    s.handleAll (ks ++ [k]) = ((s.handleAll ks).handle k).1 := by
  simp [handleAll]

theorem handle_char (h : s.enabled = true) (c : Char) :
    (s.handle (.char c)).1.toEditor = s.toEditor.typeKey c := by
  show s.toEditor.typeKeys [c] = _
  rw [Editor.typeKeys, if_pos h]; rfl

theorem handle_backspace (s : Session) : (s.handle .backspace).1.toEditor =
    if s.mode = .insert then s.toEditor.mapBuffer Buffer.backspace else s.toEditor := by
  have hgesture : Key.backspace.gesture s.mode =
      if s.mode = .insert then .backspace else .unknown := by
    cases s.mode <;> rfl
  rw [handle, hgesture]
  by_cases hm : s.mode = .insert
  · simp only [if_pos hm]; rfl
  · simp only [if_neg hm]; rfl

/-! ### Reaching sessions -/

/-- The session that begins with a text. -/
def start (text : List Char) (limit : Nat) (config : Config) (files : FileTree)
    (clipboard : Clipboard) (path : Option Path) : Session where
  buffer := { Buffer.ofText text with history := { limit }, clipboard, path }
  files
  config

/-- The sessions that operations lead to. -/
inductive Reachable : Session → Prop where
  | start (text : List Char) (limit : Nat) (config : Config) (files : FileTree)
      (clipboard : Clipboard) (path : Option Path) :
      Reachable (start text limit config files clipboard path)
  | operate {s : Session} (h : Reachable s) (o : Operation) : Reachable (s.operate o)

theorem Reachable.handleAll (h : s.Reachable) (ks : List Key) : (s.handleAll ks).Reachable := by
  induction ks generalizing s with
  | nil => exact h
  | cons k ks ih => exact ih (h.operate (.press k))

theorem wellFormed_saveAndTell {e : Editor} (h : e.buffer.WellFormed) :
    (saveAndTell e).buffer.WellFormed := by
  have hsave := Workspace.wellFormed_save (w := e.toWorkspace) h
  rw [saveAndTell]
  split
  · next heq => rw [heq] at hsave; exact hsave
  · next heq => rw [heq] at hsave; exact hsave

theorem wellFormed_perform {e : Editor} (h : e.buffer.WellFormed) (g : Gesture) :
    (perform e g).buffer.WellFormed := by
  cases g with
  | typing keys => exact Editor.wellFormed_typeKeys h keys
  | escape => exact Editor.wellFormed_forceNormal h
  | backspace => exact (Editor.acts_backspace : Editor.Acts true _ e).wellFormed h
  | save => exact wellFormed_saveAndTell h
  | toggleEnabled => exact Editor.wellFormed_toggleEnabled h
  | quit | unknown => exact h

theorem wellFormed_handle (h : s.buffer.WellFormed) (k : Key) :
    (s.handle k).1.buffer.WellFormed := by
  rw [handle]
  split
  · split <;> exact h
  · exact wellFormed_perform h _

/-- Each operation keeps the buffer well formed. -/
theorem wellFormed_operate (h : s.buffer.WellFormed) (o : Operation) :
    (s.operate o).buffer.WellFormed := by
  cases o with
  | call c => exact Buffer.wellFormed_call h c
  | setCursor p => exact Buffer.wellFormed_call h (.select (.caret p))
  | typeText text => exact Editor.wellFormed_typeText (e := s.toEditor) h text
  | backspace => exact (Editor.acts_backspace : Editor.Acts true _ s.toEditor).wellFormed h
  | withUndoLimit limit => exact ⟨h.document, by simp [operate, Buffer.withUndoLimit],
      by simp [operate, Buffer.withUndoLimit]⟩
  | save => exact Workspace.wellFormed_save (w := s.toWorkspace) h
  | runNamed name arguments =>
    exact Workspace.wellFormed_runNamed (w := s.toWorkspace) h name arguments
  | enterNormal => exact (Editor.acts_enterNormal : Editor.Acts true _ s.toEditor).wellFormed h
  | enterInsert => exact (Editor.acts_enterInsert : Editor.Acts true _ s.toEditor).wellFormed h
  | enterVisual lineWise =>
    exact (Editor.acts_enterVisual lineWise : Editor.Acts true _ s.toEditor).wellFormed h
  | resumeNormal => exact Editor.wellFormed_resumeNormal h
  | moveTo p => exact (Editor.acts_moveTo p : Editor.Acts true _ s.toEditor).wellFormed h
  | store c => exact (Editor.acts_store c : Editor.Acts true _ s.toEditor).wellFormed h
  | typeKeys text => exact Editor.wellFormed_typeKeys h text
  | forceNormal => exact Editor.wellFormed_forceNormal h
  | toggleEnabled => exact Editor.wellFormed_toggleEnabled h
  | run c => exact Editor.wellFormed_run h c
  | runPlan p => exact Editor.wellFormed_runPlan h p
  | press k => exact wellFormed_handle h k
  | script text => exact Editor.wellFormed_runScript h text
  | record | dropPending | say | clearMessage | toggleDetached => exact h

theorem wellFormed_start (text : List Char) (limit : Nat) (config : Config) (files : FileTree)
    (clipboard : Clipboard) (path : Option Path) :
    (start text limit config files clipboard path).buffer.WellFormed :=
  ⟨Document.wellFormed_ofText text, by simp [start], by simp [start]⟩

theorem Reachable.buffer_wellFormed (h : s.Reachable) : s.buffer.WellFormed := by
  induction h with
  | start => exact wellFormed_start ..
  | operate _ o ih => exact wellFormed_operate ih o

theorem Reachable.waiting (h : s.Reachable) (henabled : s.enabled = true)
    (hmode : s.mode = .normal) (hpending : s.hasPending = false) : s.Waiting :=
  ⟨h.buffer_wellFormed.document, henabled,
    Phase.eq_initial hmode (by simpa [Editor.hasPending] using hpending)⟩

/-- **The buffer is always well formed.**  In every reachable session the text has a line, no line
holds a line feed, and both ends of the selection are in the text; and so it is in every document
that undoing and redoing can bring back. -/
theorem wellFormed_of_reachable (h : s.Reachable) (d : Document)
    (hd : d ∈ s.buffer.document :: (s.buffer.history.past ++ s.buffer.history.future)) :
    d.lines ≠ [] ∧ (∀ l ∈ d.lines, '\n' ∉ l) ∧
      ∀ p ∈ [d.selection.anchor, d.selection.active],
        p.line < d.lines.length ∧ p.column ≤ (d.lines.line p.line).length := by
  have hb := h.buffer_wellFormed
  have hwf : d.WellFormed := by
    simp only [List.mem_cons, List.mem_append] at hd
    rcases hd with rfl | hd | hd
    · exact hb.document
    · exact hb.past d hd
    · exact hb.future d hd
  obtain ⟨⟨hne, hlines⟩, hanchor, hactive⟩ := hwf
  exact ⟨hne, hlines, by simpa using ⟨hanchor, hactive⟩⟩

/-- An insertion beyond the end of the text, a deleted character, and one step back: three different
documents, one of them in each part of the history. -/
theorem wellFormed_of_reachable_undone :
    let s := (((start ['a', 'b', '\n', 'c'] 5 {} {} (.memory none) none).operate
      (.call (.edit [.insert ⟨9, 9⟩ ['x', '\n']]))).operate (.press (.char 'x'))).operate
        (.call .undo)
    s.buffer.history.past.length = 1 ∧ s.buffer.history.future.length = 1 ∧
      ∀ d ∈ s.buffer.document :: (s.buffer.history.past ++ s.buffer.history.future),
        d.lines ≠ [] ∧ (∀ l ∈ d.lines, '\n' ∉ l) ∧
          ∀ p ∈ [d.selection.anchor, d.selection.active],
            p.line < d.lines.length ∧ p.column ≤ (d.lines.line p.line).length := by
  intro s
  have h : s.Reachable := .operate (.operate (.operate (.start ..) _) _) _
  exact ⟨by decide, by decide, fun d hd => wellFormed_of_reachable h d hd⟩

end Session

end ModalEditor
