import ModalEditor.Interpreter

/-!
# Key scripts

A script is text to type, in which `<esc>` returns to normal mode and `<cr>` types a line feed, in
capitals or not.  All else stands for itself, an unfinished token included.
-/

namespace ModalEditor

/-- A step of a script. -/
inductive ScriptStep where
  | keys (text : List Char)
  | escape
deriving DecidableEq, Repr

/-- A piece of a script. -/
inductive ScriptToken where
  | escape
  | key (c : Char)
deriving DecidableEq, Repr

namespace ScriptToken

/-- What follows `word`, in small letters or capitals, at the front of `s`. -/
def dropWord? : (word s : List Char) → Option (List Char)
  | [], s => some s
  | _ :: _, [] => none
  | w :: ws, c :: cs => if c.toLower = w then dropWord? ws cs else none

theorem length_of_dropWord? {word s rest : List Char} (h : dropWord? word s = some rest) :
    rest.length + word.length = s.length := by
  fun_induction dropWord? word s with
  | case1 => simp_all
  | case2 => simp at h
  | case3 ws c cs ih => have := ih h; simp; omega
  | case4 => simp at h

/-- The token that returns to normal mode. -/
def escapeWord : List Char := ['<', 'e', 's', 'c', '>']

/-- The token that types a line feed. -/
def returnWord : List Char := ['<', 'c', 'r', '>']

/-- The piece at the front of `c :: cs`, and what follows it. -/
def next (c : Char) (cs : List Char) : ScriptToken × List Char :=
  match dropWord? escapeWord (c :: cs) with
  | some rest => (escape, rest)
  | none =>
    match dropWord? returnWord (c :: cs) with
    | some rest => (key '\n', rest)
    | none => (key c, cs)

theorem length_next (c : Char) (cs : List Char) : (next c cs).2.length ≤ cs.length := by
  simp only [next]
  split
  next rest h =>
    have := length_of_dropWord? h
    simp only [escapeWord, List.length_cons, List.length_nil] at this ⊢
    omega
  next =>
    split
    next rest h =>
      have := length_of_dropWord? h
      simp only [returnWord, List.length_cons, List.length_nil] at this ⊢
      omega
    next => exact Nat.le_refl _

/-- The pieces of a script. -/
def tokens : List Char → List ScriptToken
  | [] => []
  | c :: cs => (next c cs).1 :: tokens (next c cs).2
termination_by s => s.length
decreasing_by have := length_next c cs; simp; omega

end ScriptToken

namespace ScriptStep

/-- Put a piece in front of the steps after it, joining keys to keys. -/
def cons : ScriptToken → List ScriptStep → List ScriptStep
  | .escape, steps => escape :: steps
  | .key c, keys text :: steps => keys (c :: text) :: steps
  | .key c, steps => keys [c] :: steps

/-- The steps of a script. -/
def ofScript (script : List Char) : List ScriptStep :=
  (ScriptToken.tokens script).foldr cons []

end ScriptStep

namespace Editor

/-- Carry out a step of a script. -/
def runStep (e : Editor) : ScriptStep → Editor
  | .keys text => e.typeKeys text
  | .escape => e.forceNormal

/-- Carry out a script. -/
def runScript (e : Editor) (script : List Char) : Editor :=
  (ScriptStep.ofScript script).foldl runStep e

end Editor

end ModalEditor
