import Mathlib.Data.List.Induction
import ModalEditor.Proofs.Reachable

/-!
# Runs

A `Session.Run` is a list of sessions, the newest first, that begins with a text and goes on key by
key and call by call.  Whatever the calls are, the session they lead to ends a run
(`Session.exists_run`).

What can happen between a session and the next one is said once, for the editors
(`Editor.Step`, `Session.Next.step`).  A property that does not hold at the start and holds at the
end of a run has begun to hold at some step and has held since (`Session.Run.exists_since`).
-/

namespace ModalEditor

/-- What one key or call does to an editor. -/
inductive Editor.Step (e : Editor) : Editor → Prop where
  | key (h : e.enabled = true) (k : Char) : Step e (e.typeKey k)
  | text (h : e.enabled = false) (text : List Char) :
      Step e (e.mapBuffer fun b => b.typeText text)
  | forceNormal : Step e e.forceNormal
  | toggle (message : Option Message) : Step e { e.toggleEnabled with message }
  | backspace (h : e.mode = .insert) : Step e (e.mapBuffer Buffer.backspace)
  /-- Saving, or nothing but a message. -/
  | aside (files : FileTree) (dirty : Bool) (message : Option Message) :
      Step e { e with files, buffer := e.buffer.setDirty dirty, message }

/-- The operations on offer to whoever has an interpreter and a buffer: typing, returning to normal
mode, switching the interpretation of keys off and on, and pressing keys. -/
def Operation.isCall : Operation → Bool
  | typeKeys _ | forceNormal | toggleEnabled | press _ => true
  | _ => false

namespace Key

theorem control_ne_typing (c : Char) (keys : List Char) : control c ≠ .typing keys := by
  unfold control
  split_ifs <;> simp

theorem control_ne_backspace (c : Char) : control c ≠ .backspace := by
  unfold control
  split_ifs <;> simp

/-- Keys of the terminal type a single key, if they type at all. -/
theorem gesture_typing {m : Mode} {k : Key} {keys : List Char} (h : k.gesture m = .typing keys) :
    ∃ c, keys = [c] := by
  cases k with
  | char c => exact ⟨c, (Gesture.typing.inj h).symm⟩
  | ctrl c => exact absurd h (control_ne_typing c keys)
  | escape => cases h
  | left | right | up | down | home | stop | pageUp | pageDown =>
    cases m with
    | insert => cases h
    | normal | visual => exact ⟨_, (Gesture.typing.inj h).symm⟩
  | alt | function | backspace | other => cases m <;> cases h

theorem gesture_backspace {m : Mode} {k : Key} (h : k.gesture m = .backspace) : m = .insert := by
  cases m with
  | insert => rfl
  | normal | visual =>
    cases k with
    | ctrl c => exact absurd h (control_ne_backspace c)
    | _ => cases h

end Key

namespace Session

variable {s s' : Session} {past : List Session}

/-- The session that a key or a call leads to.  Text goes in key by key, unless keys are not
interpreted. -/
inductive Next (s : Session) : Session → Prop where
  | key (k : Char) : Next s (s.operate (.typeKeys [k]))
  | text (h : s.enabled = false) (text : List Char) : Next s (s.operate (.typeKeys text))
  | forceNormal : Next s (s.operate .forceNormal)
  | toggleEnabled : Next s (s.operate .toggleEnabled)
  | press (k : Key) : Next s (s.operate (.press k))

/-! ### Steps -/

theorem saveAndTell_eq (e : Editor) : ∃ files dirty message, saveAndTell e =
    { e with files, buffer := e.buffer.setDirty dirty, message } := by
  unfold saveAndTell Workspace.save
  split
  · next heq =>
    split at heq
    · cases heq
    · split at heq
      · cases heq
        exact ⟨_, false, _, rfl⟩
      · cases heq
  · next heq =>
    split at heq
    · cases heq
      exact ⟨e.files, e.buffer.dirty, _, rfl⟩
    · split at heq
      · cases heq
      · cases heq
        exact ⟨_, e.buffer.dirty, _, rfl⟩

theorem step_refl (e : Editor) : e.Step e := .aside e.files e.buffer.dirty e.message

theorem step_typeKeys (e : Editor) (k : Char) : e.Step (e.typeKeys [k]) := by
  unfold Editor.typeKeys
  split
  · next h => exact .key h k
  · next h => exact .text (by simpa using h) [k]

theorem step_handle (s : Session) (k : Key) : s.toEditor.Step (s.handle k).1.toEditor := by
  rw [handle]
  split
  · split
    · exact .aside s.files s.buffer.dirty _
    · exact step_refl s.toEditor
  · cases hg : k.gesture s.mode with
    | typing keys =>
      obtain ⟨c, rfl⟩ := Key.gesture_typing hg
      exact step_typeKeys s.toEditor c
    | escape => exact .forceNormal
    | backspace => exact .backspace (Key.gesture_backspace hg)
    | save =>
      obtain ⟨files, dirty, message, hsave⟩ := saveAndTell_eq s.toEditor
      show s.toEditor.Step (saveAndTell s.toEditor)
      rw [hsave]
      exact .aside files dirty message
    | toggleEnabled => exact .toggle _
    | quit | unknown => exact step_refl s.toEditor

/-- The next session has an editor that one step leads to. -/
theorem Next.step (h : Next s s') : s.toEditor.Step s'.toEditor := by
  cases h with
  | key k => exact step_typeKeys s.toEditor k
  | text h text =>
    show s.toEditor.Step (s.typeKeys text)
    rw [Editor.typeKeys, if_neg (by simp [h])]
    exact .text h text
  | forceNormal => exact .forceNormal
  | toggleEnabled => exact .toggle s.toEditor.toggleEnabled.message
  | press k => exact step_handle s k

/-! ### Runs -/

/-- The sessions that a text and then keys and calls lead to, the newest first. -/
inductive Run : List Session → Prop where
  | start (text : List Char) (limit : Nat) (config : Config) (files : FileTree)
      (clipboard : Clipboard) (path : Option Path) :
      Run [start text limit config files clipboard path]
  | next {s s' : Session} {past : List Session} (h : Run (s :: past)) (hs : Next s s') :
      Run (s' :: s :: past)

/-- What holds at every start and is kept by every step holds throughout a run. -/
theorem Run.invariant {I : Session → Prop} (h : Run (s :: past))
    (hstart : ∀ text limit config files clipboard path,
      I (Session.start text limit config files clipboard path))
    (hnext : ∀ x y before, Run (x :: before) → I x → Next x y → I y) : I s := by
  generalize hrun : s :: past = run at h
  induction h generalizing s past with
  | start =>
    obtain ⟨rfl, -⟩ := List.cons.inj hrun
    exact hstart ..
  | next hbefore hs ih =>
    obtain ⟨rfl, -⟩ := List.cons.inj hrun
    exact hnext _ _ _ hbefore (ih rfl) hs

theorem Run.reachable (h : Run (s :: past)) : s.Reachable := by
  refine h.invariant .start ?_
  intro x y before hbefore hx hnext
  cases hnext <;> exact .operate hx _

/-- Interpreted keys are so many steps. -/
theorem Run.exists_typeKeys (h : Run (s :: past)) (text : List Char) :
    ∃ past, Run (s.operate (.typeKeys text) :: past) := by
  by_cases henabled : s.enabled = true
  · induction text generalizing s past with
    | nil =>
      refine ⟨past, ?_⟩
      rw [operate, Editor.typeKeys, if_pos henabled]
      exact h
    | cons k text ih =>
      have hkey : s.operate (.typeKeys [k]) = { s with toEditor := s.typeKey k } := by
        rw [operate, Editor.typeKeys, if_pos henabled]
        rfl
      have hnext : Run ({ s with toEditor := s.typeKey k } :: s :: past) := hkey ▸ h.next (.key k)
      have hstays : (s.typeKey k).enabled = true := by
        rw [(Editor.settings_typeKey s.toEditor k).2, henabled]
      obtain ⟨past, hrest⟩ := ih hnext hstays
      refine ⟨past, ?_⟩
      rw [operate, Editor.typeKeys, if_pos hstays] at hrest
      rw [operate, Editor.typeKeys, if_pos henabled]
      exact hrest
  · exact ⟨_, h.next (.text (by simpa using henabled) text)⟩

/-- **Whatever the calls are, a run leads to the same session.** -/
theorem exists_run (text : List Char) (limit : Nat) (config : Config) (files : FileTree)
    (clipboard : Clipboard) (path : Option Path) {os : List Operation}
    (h : ∀ o ∈ os, o.isCall = true) :
    ∃ past, Run (os.foldl operate (start text limit config files clipboard path) :: past) := by
  induction os using List.reverseRecOn with
  | nil => exact ⟨[], .start ..⟩
  | append_singleton os o ih =>
    obtain ⟨past, hrun⟩ := ih fun o ho => h o (List.mem_append_left _ ho)
    have ho := h o (List.mem_append_right _ (List.mem_singleton_self o))
    rw [List.foldl_append]
    cases o with
    | typeKeys text => exact hrun.exists_typeKeys text
    | forceNormal => exact ⟨_, hrun.next .forceNormal⟩
    | toggleEnabled => exact ⟨_, hrun.next .toggleEnabled⟩
    | press k => exact ⟨_, hrun.next (.press k)⟩
    | _ => cases ho

/-- What does not hold at the start of a run, but at its end, has begun to hold at one step and has
held since. -/
theorem Run.exists_since {P : Session → Prop} (h : Run (s :: past)) (hs : P s)
    (hstart : ∀ text limit config files clipboard path,
      ¬P (Session.start text limit config files clipboard path)) :
    ∃ since y x before, s :: past = since ++ y :: x :: before ∧ Run (x :: before) ∧ Next x y ∧
      ¬P x ∧ ∀ z ∈ since ++ [y], P z := by
  generalize hrun : s :: past = run at h
  induction h generalizing s past with
  | start =>
    obtain ⟨rfl, -⟩ := List.cons.inj hrun
    exact absurd hs (hstart _ _ _ _ _ _)
  | @next x y before hbefore hnext ih =>
    obtain ⟨rfl, rfl⟩ := List.cons.inj hrun
    by_cases hx : P x
    · obtain ⟨since, y', x', before', heq, hrest, hnext', hx', hall⟩ := ih hx rfl
      refine ⟨s :: since, y', x', before', by rw [heq]; rfl, hrest, hnext', hx', ?_⟩
      intro z hz
      rcases List.mem_cons.1 hz with rfl | hz
      · exact hs
      · exact hall z hz
    · exact ⟨[], s, x, before, rfl, hbefore, hnext, hx, by simpa using hs⟩

end Session

end ModalEditor
