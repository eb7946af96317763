import Mathlib.Data.List.Basic
import ModalEditor.Proofs.Reachable
import ModalEditor.Proofs.Typing

/-!
# Keys while interpretation is off

While interpretation is off no key is a command, and a character that is typed is text.  But what a
key stands for is decided by the mode alone: in normal and visual mode a key for moving still stands
for the letter of its command, and the letter is text like any other.  Only in insert mode, where
the keys for moving ask for nothing, are they ignored (`Session.text_handleAll_disabled`).
-/

namespace ModalEditor

namespace Key

variable {k : Key} {m : Mode}

/-- The character of a key that types one. -/
def char? : Key → Option Char
  | char c => some c
  | _ => none

/-- The character that a key gives to the interpreter in mode `m`. -/
def given? (m : Mode) (k : Key) : Option Char :=
  if m = .insert then k.char? else k.char?.or k.command?

/-- The key types a character or is one for moving. -/
def IsPlain (k : Key) : Prop := k.char?.isSome = true ∨ k.command?.isSome = true

instance : Decidable k.IsPlain := inferInstanceAs (Decidable (_ ∨ _))

/-- No key both types a character and is one for moving. -/
theorem IsPlain.isSome_char?_iff (h : k.IsPlain) : k.char?.isSome = true ↔ k.command? = none := by
  cases k <;> simp_all [IsPlain, char?, command?]

theorem IsPlain.isSome_given? (h : k.IsPlain) (hm : m ≠ .insert) : (k.given? m).isSome = true := by
  rw [given?, if_neg hm, Option.isSome_or, Bool.or_eq_true]
  exact h

/-- A plain key asks for typing what it gives, or for nothing. -/
theorem IsPlain.gesture_eq (h : k.IsPlain) :
    k.gesture m = match k.given? m with
      | some c => .typing [c]
      | none => .unknown := by
  cases k <;> cases m <;> first | rfl | simp [IsPlain, char?, command?] at h

end Key

namespace Session

variable {s : Session} {k : Key} {ks : List Key} {x y : List Char}

/-- Interpretation is off in mode `m`, with the cursor between the texts `x` and `y`. -/
structure Literal (s : Session) (m : Mode) (x y : List Char) : Prop where
  enabled : s.enabled = false
  mode : s.mode = m
  splits : s.buffer.document.Splits x y

/-- A key puts what it gives before the cursor. -/
theorem Literal.handle {m : Mode} (h : s.Literal m x y) (hk : k.IsPlain) :
    (s.handle k).1.Literal m (x ++ (k.given? m).toList) y := by
  obtain ⟨henabled, hmode, hsplits⟩ := h
  have hgesture := hk.gesture_eq (m := m)
  rw [Session.handle, hmode, hgesture]
  cases k.given? m with
  | none => exact ⟨henabled, hmode, by rwa [Option.toList_none, List.append_nil]⟩
  | some c =>
    have htype : s.toEditor.typeKeys [c] = s.toEditor.mapBuffer fun b => b.typeText [c] :=
      if_neg (by rw [henabled]; decide)
    dsimp only
    rw [perform, htype]
    exact ⟨henabled, hmode, Buffer.splits_typeText hsplits [c]⟩

/-- So does a run of keys. -/
theorem Literal.handleAll {m : Mode} (h : s.Literal m x y) (hks : ∀ k ∈ ks, k.IsPlain) :
    (s.handleAll ks).Literal m (x ++ ks.filterMap (Key.given? m)) y := by
  induction ks generalizing s x with
  | nil => rwa [List.filterMap_nil, List.append_nil]
  | cons k ks ih =>
    have hkey := h.handle (hks k List.mem_cons_self)
    have hrun := ih hkey fun k hk => hks k (List.mem_cons_of_mem _ hk)
    have hcons : (k :: ks).filterMap (Key.given? m) =
        (k.given? m).toList ++ ks.filterMap (Key.given? m) := by
      rw [List.filterMap_cons]
      cases k.given? m <;> rfl
    rwa [List.append_assoc, ← hcons] at hrun

/-- Keys give their own characters only, if there is no key for moving among them or these are
ignored. -/
theorem filterMap_given?_eq_iff {m : Mode} (hks : ∀ k ∈ ks, k.IsPlain) :
    ks.filterMap (Key.given? m) = ks.filterMap Key.char? ↔
      m = .insert ∨ ∀ k ∈ ks, k.command? = none := by
  by_cases hm : m = .insert
  · refine iff_of_true (List.filterMap_congr fun k _ => ?_) (.inl hm)
    exact if_pos hm
  rw [or_iff_right hm]
  constructor
  · intro hsame k hk
    -- Every key gives a character here, and so each has to be one of its own.
    have hgiven := List.filterMap_length_eq_length.2 fun k hk => (hks k hk).isSome_given? hm
    rw [hsame] at hgiven
    have hchar := List.filterMap_length_eq_length.1 hgiven k hk
    exact (hks k hk).isSome_char?_iff.1 hchar
  · intro hnone
    refine List.filterMap_congr fun k hk => ?_
    rw [Key.given?, if_neg hm, hnone k hk, Option.or_none]

/-- **Text typed while interpretation is off.**  In a reachable session with interpretation off, a
run of keys that type a character or are keys for moving inserts at the cursor what the keys give in
the mode, in order: the characters typed, and in normal and visual mode the letters of the keys for
moving.  These are the characters typed alone if and only if the mode is insert mode or no key for
moving is among the keys. -/
theorem text_handleAll_disabled (h : s.Reachable) (hoff : s.enabled = false)
    (hks : ∀ k ∈ ks, k.IsPlain) :
    let o := s.lines.offset s.buffer.cursor
    let x := s.handleAll ks
    let front := s.buffer.text.take o
    let back := s.buffer.text.drop o
    x.enabled = false ∧ x.mode = s.mode ∧
      x.buffer.text = front ++ ks.filterMap (Key.given? s.mode) ++ back ∧
      x.lines.offset x.buffer.cursor = o + (ks.filterMap (Key.given? s.mode)).length ∧
      (x.buffer.text = front ++ ks.filterMap Key.char? ++ back ↔
        s.mode = .insert ∨ ∀ k ∈ ks, k.command? = none) := by
  intro o x front back
  have hsplits : s.buffer.document.Splits front back := h.buffer_wellFormed.document.splits
  obtain ⟨henabled, hmode, hrun⟩ := (Literal.mk hoff rfl hsplits).handleAll hks
  have htext : x.buffer.text = front ++ ks.filterMap (Key.given? s.mode) ++ back := hrun.text
  have hlength : front.length = o := hsplits.offset.symm
  refine ⟨henabled, hmode, htext, ?_, ?_⟩
  · rw [← hlength, ← List.length_append]
    exact hrun.offset
  · rw [htext, ← filterMap_given?_eq_iff hks, List.append_left_inj, List.append_right_inj]

/-- Characters and a key for moving, typed in visual mode and in insert mode. -/
theorem text_handleAll_disabled_both :
    let s := start ['a', 'b', 'c'] 5 {} {} (.memory none) none
    let visual := s.handleAll [.char 'l', .char 'v', .char 'l', .ctrl 't']
    let insert := s.handleAll [.char 'l', .char 'i', .ctrl 't']
    let ks := [Key.char 'x', .char '\n', .left]
    (visual.handleAll ks).buffer.text = ['a', 'b', 'x', '\n', 'h', 'c'] ∧
      (insert.handleAll ks).buffer.text = ['a', 'x', '\n', 'b', 'c'] := by
  intro s visual insert ks
  have hs : s.Reachable := .start ..
  have hvisual : visual.Reachable := hs.handleAll _
  have hinsert : insert.Reachable := hs.handleAll _
  have hks : ∀ k ∈ ks, k.IsPlain := by decide
  obtain ⟨-, -, htext, -⟩ := text_handleAll_disabled hvisual (by decide +kernel) hks
  obtain ⟨-, -, htext', -⟩ := text_handleAll_disabled hinsert (by decide +kernel) hks
  rw [htext, htext']
  decide +kernel

/-- In normal mode the key that moves left types an `h` once interpretation is off. -/
theorem not_text_handleAll_disabled :
    let s := (start ['a', 'b'] 5 {} {} (.memory none) none).handleAll [.ctrl 't']
    let ks := [Key.left]
    s.Reachable ∧ s.enabled = false ∧ s.mode = .normal ∧ s.lines.offset s.buffer.cursor = 0 ∧
      ks.filterMap Key.char? = [] ∧ s.buffer.text = ['a', 'b'] ∧
      (s.handleAll ks).buffer.text = ['h', 'a', 'b'] :=
  ⟨(Reachable.start ..).handleAll _, by decide +kernel, by decide +kernel,
    by decide +kernel, by decide +kernel, by decide +kernel, by decide +kernel⟩

end Session

end ModalEditor
