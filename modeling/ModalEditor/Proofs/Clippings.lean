import Mathlib.Data.List.DropRight
import ModalEditor.Proofs.Offset
import ModalEditor.Register

/-!
# Clippings on a clipboard

Taking whole lines cuts the line breaks off the end of their text, and taking the text again changes
nothing (`Clipping.take_take`).  So a line-wise clipping that has been taken survives the way over a
clipboard, and of the clippings by characters exactly those do that do not begin with the mark of
whole lines (`Clipping.decode_encode_iff`).

What is cut off can be lines: the text of some lines is kept whole exactly if the last of them ends
in no carriage return and is not empty, or stands alone (`Clipping.text_take_lines_iff`).
-/

namespace ModalEditor

namespace Clipping

variable {t : List Char} {c : Clipping}

theorem text_take_true (t : List Char) : (take t true).text = t.rdropWhile isLineBreak := rfl

/-- Text that has been taken has no more to lose. -/
theorem take_take (t : List Char) (lineWise : Bool) :
    take (take t lineWise).text lineWise = take t lineWise := by
  cases lineWise with
  | false => rfl
  | true =>
    have hagain : (t.rdropWhile isLineBreak).rdropWhile isLineBreak = t.rdropWhile isLineBreak :=
      List.rdropWhile_idempotent isLineBreak t
    exact congrArg (fun text => Clipping.mk text true) hagain

/-- Nothing is cut off a text that does not end in a line break. -/
theorem text_take_true_eq_iff :
    (take t true).text = t ↔ ∀ c, t.getLast? = some c → isLineBreak c = false := by
  rw [text_take_true, List.rdropWhile_eq_self_iff]
  constructor
  · intro h c hc
    have ht : t ≠ [] := by
      rintro rfl
      cases hc
    rw [List.getLast?_eq_some_getLast ht, Option.some_inj] at hc
    subst hc
    simpa using h ht
  · intro h ht
    simp [h _ (List.getLast?_eq_some_getLast ht)]

/-- The clipping has been taken from a text. -/
def IsTaken (c : Clipping) : Prop := take c.text c.lineWise = c

theorem isTaken_take (t : List Char) (lineWise : Bool) : (take t lineWise).IsTaken :=
  take_take t lineWise

/-- The text of characters could be mistaken for whole lines. -/
def IsMistakable (c : Clipping) : Prop := c.lineWise = false ∧ c.text.head? = some marker

instance (c : Clipping) : Decidable c.IsMistakable := inferInstanceAs (Decidable (_ ∧ _))

/-- **The way over a clipboard and back** keeps a clipping, unless its characters look like whole
lines. -/
theorem decode_encode_iff (h : c.IsTaken) : decode c.encode = c ↔ ¬c.IsMistakable := by
  rcases c with ⟨text, lineWise⟩
  cases lineWise with
  | true =>
    have hdecode : decode (encode ⟨text, true⟩) = take text true := by simp [encode, decode]
    rw [hdecode]
    exact ⟨fun _ hc => Bool.noConfusion hc.1, fun _ => h⟩
  | false =>
    cases text with
    | nil => simp [encode, decode, IsMistakable]
    | cons d ds =>
      by_cases hd : d = marker
      · subst hd
        simp [encode, decode, take, IsMistakable]
      · simp [encode, decode, IsMistakable, hd]

/-- **The text of whole lines is kept whole** if the last line ends in no carriage return and is not
empty, or is the only one, and not otherwise. -/
theorem text_take_lines_iff (ls : Lines) {l : List Char} (hl : '\n' ∉ l) :
    (take (Lines.text (ls ++ [l])) true).text = Lines.text (ls ++ [l]) ↔
      (ls ≠ [] → l ≠ []) ∧ l.getLast? ≠ some '\r' := by
  rw [text_take_true_eq_iff, Lines.text_append_line, Lines.text_singleton]
  cases l using List.reverseRecOn with
  | nil =>
    -- The text ends with the line feed of the line before, if there is one.
    cases ls using List.reverseRecOn with
    | nil => simp [Lines.terminated]
    | append_singleton ls k => simp [Lines.terminated, isLineBreak]
  | append_singleton l d =>
    have hd : d ≠ '\n' := fun h => hl (by simp [h])
    simp [← List.append_assoc, isLineBreak, hd]

end Clipping

end ModalEditor
