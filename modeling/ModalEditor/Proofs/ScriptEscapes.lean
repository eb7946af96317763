import ModalEditor.Keyboard.Script

/-!
# Scripts split at their tokens

A script may be cut before any token: what is before the cut reads as it does alone, and so does
what begins with the token (`ScriptToken.tokens_append`).  A token begins with `<`, and nothing that
comes later in a token is a `<`, so that no token that has begun before the cut goes on behind it,
not even in `<es<esc>`.

From this follow the laws of scripts (`ScriptStep.ofScript_splits`).  `<esc>` divides a script into
two that are carried out one after the other, `<cr>` is a line feed, and text without tokens is
typed as it is.

The tokens are found at places in a list of characters.  In text that is stored as bytes they are
looked for some bytes ahead, where a character may be cut in two.  `ScriptStep.scan` does that and
finds the same steps (`ScriptStep.scan_eq_ofScript`).
-/

namespace ModalEditor

namespace ScriptToken

variable {word w s t rest : List Char} {c d : Char}

/-! ### Tokens at the front -/

/-- A word is found in whatever letters it is written. -/
theorem dropWord?_eq_some_iff :
    dropWord? word s = some rest ↔ ∃ w, w.map Char.toLower = word ∧ s = w ++ rest := by
  fun_induction dropWord? word s with
  | case1 s => simp [eq_comm]
  | case2 v word =>
    refine iff_of_false (fun h => by cases h) ?_
    rintro ⟨w, hw, hs⟩
    obtain ⟨rfl, -⟩ := List.append_eq_nil_iff.1 hs.symm
    cases hw
  | case3 word c s ih =>
    rw [ih]
    constructor
    · rintro ⟨w, rfl, rfl⟩
      exact ⟨c :: w, rfl, rfl⟩
    · rintro ⟨w, hw, hs⟩
      obtain ⟨d, w, rfl, -, hw⟩ := List.map_eq_cons_iff.1 hw
      obtain ⟨-, rfl⟩ := List.cons.inj hs
      exact ⟨w, hw, rfl⟩
  | case4 v word c s hc =>
    refine iff_of_false (fun h => by cases h) ?_
    rintro ⟨w, hw, hs⟩
    obtain ⟨d, w, rfl, hd, -⟩ := List.map_eq_cons_iff.1 hw
    obtain ⟨rfl, -⟩ := List.cons.inj hs
    exact hc hd

theorem dropWord?_eq_none (h : ∀ w, w <+: s → w.map Char.toLower ≠ word) :
    dropWord? word s = none := by
  refine Option.eq_none_iff_forall_ne_some.2 fun rest hrest => ?_
  obtain ⟨w, hw, rfl⟩ := dropWord?_eq_some_iff.1 hrest
  exact h w (List.prefix_append w rest) hw

/-- No token goes on with this character. -/
def Opening (d : Char) : Prop := d.toLower ∉ escapeWord.tail ∧ d.toLower ∉ returnWord.tail

theorem Opening.of_toLower (h : d.toLower = '<') : Opening d := by
  rw [Opening, h]
  decide

theorem dropWord?_append (h : d.toLower ∉ word) (s t : List Char) :
    dropWord? word (s ++ d :: t) = (dropWord? word s).map (· ++ d :: t) := by
  fun_induction dropWord? word s with
  | case1 s => rw [dropWord?, Option.map_some]
  | case2 v word =>
    have hd : d.toLower ≠ v := fun hd => h (hd ▸ List.mem_cons_self)
    rw [List.nil_append, dropWord?, if_neg hd, Option.map_none]
  | case3 word c s ih =>
    rw [List.cons_append, dropWord?, if_pos rfl, ih fun hd => h (List.mem_cons_of_mem _ hd)]
  | case4 v word c s hc => rw [List.cons_append, dropWord?, if_neg hc, Option.map_none]

theorem dropWord?_cons_append (h : d.toLower ∉ word.tail) (c : Char) (s t : List Char) :
    dropWord? word (c :: (s ++ d :: t)) = (dropWord? word (c :: s)).map (· ++ d :: t) := by
  cases word with
  | nil => rfl
  | cons v word =>
    rw [List.tail_cons] at h
    rw [dropWord?, dropWord?, dropWord?_append h]
    split <;> rfl

/-- What follows a character is read up to where a token may begin. -/
theorem next_append (h : Opening d) (c : Char) (s t : List Char) :
    next c (s ++ d :: t) = ((next c s).1, (next c s).2 ++ d :: t) := by
  rw [next, next, dropWord?_cons_append h.1, dropWord?_cons_append h.2]
  cases dropWord? escapeWord (c :: s) with
  | some rest => rfl
  | none => cases dropWord? returnWord (c :: s) <;> rfl

/-! ### All tokens -/

/-- **A script may be cut where a token may begin.** -/
theorem tokens_append (h : Opening d) (s t : List Char) :
    tokens (s ++ d :: t) = tokens s ++ tokens (d :: t) := by
  fun_induction tokens s with
  | case1 => rfl
  | case2 c s ih => rw [List.cons_append, tokens, next_append h, ih, List.cons_append]

theorem tokens_of_next {k : ScriptToken} (h : next c s = (k, rest)) :
    tokens (c :: s) = k :: tokens rest := by
  rw [tokens, h]

theorem tokens_escapeWord (hw : w.map Char.toLower = escapeWord) (s t : List Char) :
    tokens (s ++ w ++ t) = tokens s ++ escape :: tokens t := by
  have hfound : dropWord? escapeWord (w ++ t) = some t := dropWord?_eq_some_iff.2 ⟨w, hw, rfl⟩
  obtain ⟨d, w, rfl, hd, -⟩ := List.map_eq_cons_iff.1 hw
  have hnext : next d (w ++ t) = (escape, t) := by
    rw [next, ← List.cons_append, hfound]
  rw [List.append_assoc, List.cons_append, tokens_append (.of_toLower hd), tokens_of_next hnext]

theorem tokens_returnWord (hw : w.map Char.toLower = returnWord) (s t : List Char) :
    tokens (s ++ w ++ t) = tokens s ++ key '\n' :: tokens t := by
  have hfound : dropWord? returnWord (w ++ t) = some t := dropWord?_eq_some_iff.2 ⟨w, hw, rfl⟩
  have hnot : dropWord? escapeWord (w ++ t) = none := by
    refine dropWord?_eq_none fun w' hprefix hw' => ?_
    have hlower := hprefix.map Char.toLower
    rw [List.map_append, hw, hw', returnWord, escapeWord] at hlower
    simp at hlower
  obtain ⟨d, w, rfl, hd, -⟩ := List.map_eq_cons_iff.1 hw
  have hnext : next d (w ++ t) = (key '\n', t) := by
    rw [next, ← List.cons_append, hnot]
    dsimp only
    rw [hfound]
  rw [List.append_assoc, List.cons_append, tokens_append (.of_toLower hd), tokens_of_next hnext]

theorem tokens_lineFeed (s t : List Char) :
    tokens (s ++ '\n' :: t) = tokens s ++ key '\n' :: tokens t := by
  have hnext : next '\n' t = (key '\n', t) := rfl
  rw [tokens_append (by rw [Opening]; decide), tokens_of_next hnext]

/-! ### Text without tokens -/

/-- No part of the text is a token. -/
def TokenFree (s : List Char) : Prop :=
  ∀ w, w <:+: s → w.map Char.toLower ≠ escapeWord ∧ w.map Char.toLower ≠ returnWord

/-- Unfinished tokens are none. -/
theorem TokenFree.of_not_mem (h : '>' ∉ s.map Char.toLower) : TokenFree s := by
  intro w hw
  have hnot : '>' ∉ w.map Char.toLower := fun hmem => h ((hw.map Char.toLower).subset hmem)
  constructor
  · intro heq
    exact hnot (heq ▸ by decide)
  · intro heq
    exact hnot (heq ▸ by decide)

theorem TokenFree.of_cons (h : TokenFree (c :: s)) : TokenFree s :=
  fun w hw => h w (List.infix_cons hw)

theorem TokenFree.next_eq (h : TokenFree (c :: s)) : next c s = (key c, s) := by
  rw [next, dropWord?_eq_none fun w hw => (h w hw.isInfix).1,
    dropWord?_eq_none fun w hw => (h w hw.isInfix).2]

theorem TokenFree.tokens_eq (h : TokenFree s) : tokens s = s.map key := by
  induction s with
  | nil => rw [tokens]; rfl
  | cons c s ih => rw [tokens_of_next h.next_eq, ih h.of_cons, List.map_cons]

end ScriptToken

namespace ScriptStep

open ScriptToken (escapeWord returnWord tokens TokenFree)

variable {word w s t rest keys : List Char} {l l' : List ScriptToken}

/-! ### Steps -/

/-- The steps that tokens make. -/
def ofTokens (l : List ScriptToken) : List ScriptStep := l.foldr cons []

theorem ofTokens_cons (k : ScriptToken) (l : List ScriptToken) :
    ofTokens (k :: l) = cons k (ofTokens l) := rfl

/-- The step that types the keys, unless there are none. -/
def typing : List Char → List ScriptStep
  | [] => []
  | c :: text => [.keys (c :: text)]

theorem ofTokens_map_key (text : List Char) : ofTokens (text.map .key) = typing text := by
  induction text with
  | nil => rfl
  | cons c text ih =>
    rw [List.map_cons, ofTokens_cons, ih]
    cases text <;> rfl

/-- Keys are not joined across an escape. -/
theorem cons_append_escape (k : ScriptToken) (steps steps' : List ScriptStep) :
    cons k (steps ++ .escape :: steps') = cons k steps ++ .escape :: steps' := by
  cases k with
  | escape => rfl
  | key c =>
    cases steps with
    | nil => rfl
    | cons step steps => cases step <;> rfl

theorem ofTokens_append_escape (l l' : List ScriptToken) :
    ofTokens (l ++ .escape :: l') = ofTokens l ++ .escape :: ofTokens l' := by
  induction l with
  | nil => rfl
  | cons k l ih => rw [List.cons_append, ofTokens_cons, ih, cons_append_escape, ofTokens_cons]

/-- Steps that type something, with escapes between them. -/
inductive Alternating : List ScriptStep → Prop where
  | nil : Alternating []
  | typed (c : Char) (text : List Char) : Alternating [.keys (c :: text)]
  | escape {steps : List ScriptStep} (h : Alternating steps) : Alternating (.escape :: steps)
  | keys (c : Char) (text : List Char) {steps : List ScriptStep} (h : Alternating steps) :
      Alternating (.keys (c :: text) :: .escape :: steps)

theorem Alternating.cons {steps : List ScriptStep} (h : Alternating steps) (k : ScriptToken) :
    Alternating (cons k steps) := by
  cases k with
  | escape => exact .escape h
  | key d =>
    cases h with
    | nil => exact .typed d []
    | typed c text => exact .typed d (c :: text)
    | escape h => exact .keys d [] h
    | keys c text h => exact .keys d (c :: text) h

theorem alternating_ofTokens (l : List ScriptToken) : Alternating (ofTokens l) := by
  induction l with
  | nil => exact .nil
  | cons k l ih => exact ih.cons k

theorem Alternating.of_append {before steps : List ScriptStep} (h : Alternating (before ++ steps)) :
    Alternating steps := by
  induction before with
  | nil => exact h
  | cons step before ih =>
    refine ih ?_
    rw [List.cons_append] at h
    generalize before ++ steps = after at h ⊢
    cases h with
    | typed => exact .nil
    | escape h => exact h
    | keys c text h => exact .escape h

theorem Alternating.keys_nil_not_mem {steps : List ScriptStep} (h : Alternating steps) :
    .keys [] ∉ steps := by
  intro hmem
  obtain ⟨before, after, rfl⟩ := List.append_of_mem hmem
  cases h.of_append

theorem Alternating.apart {steps before after : List ScriptStep} (h : Alternating steps)
    (text text' : List Char) : steps ≠ before ++ .keys text :: .keys text' :: after := by
  rintro rfl
  cases h.of_append

/-! ### Looking ahead by bytes -/

/-- The number of bytes of a text. -/
def byteLength : List Char → Nat
  | [] => 0
  | c :: s => c.utf8Size + byteLength s

/-- A text cut after some bytes, if a character ends there. -/
def cutBytes? : Nat → List Char → Option (List Char × List Char)
  | 0, s => some ([], s)
  | _ + 1, [] => none
  | n + 1, c :: s =>
    if c.utf8Size ≤ n + 1 then
      (cutBytes? (n + 1 - c.utf8Size) s).map fun (front, rest) => (c :: front, rest)
    else none

/-- What follows `word`, in small letters or capitals, at the front of a text, which is looked at
for as many bytes as the word has. -/
def skipWord? (word s : List Char) : Option (List Char) :=
  match cutBytes? word.length s with
  | some (front, rest) => if front.map Char.toLower = word then some rest else none
  | none => none

theorem cutBytes?_eq_some_iff {n : Nat} {front : List Char} :
    cutBytes? n s = some (front, rest) ↔
      s = front ++ rest ∧ byteLength front = n := by
  fun_induction cutBytes? n s generalizing front with
  | case1 s =>
    cases front with
    | nil => simp [byteLength, eq_comm]
    | cons c front =>
      have hpos := c.utf8Size_pos
      simp only [Option.some.injEq, Prod.mk.injEq, byteLength]
      refine iff_of_false (fun h => by cases h.1) (fun h => ?_)
      omega
  | case2 n =>
    refine iff_of_false (fun h => by cases h) ?_
    rintro ⟨hnil, hsum⟩
    obtain ⟨rfl, -⟩ := List.append_eq_nil_iff.1 hnil.symm
    cases hsum
  | case3 n c s hfits ih =>
    rw [Option.map_eq_some_iff]
    constructor
    · rintro ⟨⟨front, rest⟩, hcut, heq⟩
      obtain ⟨rfl, rfl⟩ := Prod.mk.inj heq
      obtain ⟨rfl, hsum⟩ := ih.1 hcut
      refine ⟨rfl, ?_⟩
      rw [byteLength]
      omega
    · rintro ⟨hs, hsum⟩
      cases front with
      | nil => cases hsum
      | cons d front =>
        obtain ⟨rfl, rfl⟩ := List.cons.inj hs
        rw [byteLength] at hsum
        exact ⟨(front, rest), ih.2 ⟨rfl, by omega⟩, rfl⟩
  | case4 n c s hfits =>
    refine iff_of_false (fun h => by cases h) ?_
    rintro ⟨hs, hsum⟩
    cases front with
    | nil => cases hsum
    | cons d front =>
      obtain ⟨rfl, -⟩ := List.cons.inj hs
      rw [byteLength] at hsum
      omega

/-- Small letters have as many bytes as capitals. -/
theorem utf8Size_toLower (c : Char) : c.toLower.utf8Size = c.utf8Size := by
  unfold Char.toLower
  split
  · next h =>
    have hhigh : c.val.toNat ≤ 90 := h.2
    have hshift : ('a'.val - 'A'.val).toNat = 32 := rfl
    have hcapital : c.utf8Size = 1 := by
      rw [Char.utf8Size_eq_one_iff, UInt32.le_iff_toNat_le]
      exact Nat.le_trans hhigh (by decide)
    rw [hcapital, Char.utf8Size_eq_one_iff, UInt32.le_iff_toNat_le, UInt32.toNat_add, hshift]
    show (c.val.toNat + 32) % 2 ^ 32 ≤ 127
    omega
  · rfl

theorem byteLength_map_toLower (s : List Char) :
    byteLength (s.map Char.toLower) = byteLength s := by
  induction s with
  | nil => rfl
  | cons c s ih => rw [List.map_cons, byteLength, byteLength, utf8Size_toLower, ih]

/-- In a word of single bytes it makes no difference what the text is counted in. -/
theorem skipWord?_eq_dropWord? (hword : byteLength word = word.length) (s : List Char) :
    skipWord? word s = ScriptToken.dropWord? word s := by
  refine Option.ext fun rest => ?_
  rw [ScriptToken.dropWord?_eq_some_iff, skipWord?]
  constructor
  · intro h
    split at h
    · next front rest' hcut =>
      split at h
      · next hfront =>
        obtain rfl := Option.some.inj h
        exact ⟨front, hfront, (cutBytes?_eq_some_iff.1 hcut).1⟩
      · cases h
    · cases h
  · rintro ⟨front, hfront, hs⟩
    have hlength : byteLength front = word.length := by
      rw [← byteLength_map_toLower, hfront, hword]
    rw [cutBytes?_eq_some_iff.2 ⟨hs, hlength⟩]
    exact if_pos hfront

theorem skipWord?_escapeWord (s : List Char) :
    skipWord? escapeWord s = ScriptToken.dropWord? escapeWord s :=
  skipWord?_eq_dropWord? rfl s

theorem skipWord?_returnWord (s : List Char) :
    skipWord? returnWord s = ScriptToken.dropWord? returnWord s :=
  skipWord?_eq_dropWord? rfl s

/-- Scan for the steps of a script from the left, after the steps so far and the keys since the last
of them. -/
def scan (steps : List ScriptStep) (keys : List Char) : List Char → List ScriptStep
  | [] => steps ++ typing keys
  | c :: s =>
    match _ : skipWord? escapeWord (c :: s) with
    | some rest => scan (steps ++ typing keys ++ [.escape]) [] rest
    | none =>
      match _ : skipWord? returnWord (c :: s) with
      | some rest => scan steps (keys ++ ['\n']) rest
      | none => scan steps (keys ++ [c]) s
termination_by s => s.length
decreasing_by
  · next h =>
    have hlength := ScriptToken.length_of_dropWord? (skipWord?_escapeWord _ ▸ h)
    rw [List.length_cons, escapeWord] at hlength
    simp only [List.length_cons, List.length_nil] at hlength ⊢
    omega
  · next h =>
    have hlength := ScriptToken.length_of_dropWord? (skipWord?_returnWord _ ▸ h)
    rw [List.length_cons, returnWord] at hlength
    simp only [List.length_cons, List.length_nil] at hlength ⊢
    omega
  · exact Nat.lt_succ_self s.length

theorem scan_eq_ofTokens (steps : List ScriptStep) (keys s : List Char) :
    scan steps keys s = steps ++ ofTokens (keys.map .key ++ tokens s) := by
  fun_induction scan steps keys s with
  | case1 steps keys => rw [tokens, List.append_nil, ofTokens_map_key]
  | case2 steps keys c s rest h ih =>
    rw [skipWord?_escapeWord] at h
    have hnext : ScriptToken.next c s = (.escape, rest) := by rw [ScriptToken.next, h]
    rw [ih, ScriptToken.tokens_of_next hnext, ofTokens_append_escape, ofTokens_map_key]
    simp only [List.map_nil, List.nil_append, List.append_assoc, List.cons_append]
  | case3 steps keys c s h rest h' ih =>
    rw [skipWord?_escapeWord] at h
    rw [skipWord?_returnWord] at h'
    have hnext : ScriptToken.next c s = (.key '\n', rest) := by rw [ScriptToken.next, h, h']
    rw [ih, ScriptToken.tokens_of_next hnext, List.map_append, List.append_assoc]
    rfl
  | case4 steps keys c s h h' ih =>
    rw [skipWord?_escapeWord] at h
    rw [skipWord?_returnWord] at h'
    have hnext : ScriptToken.next c s = (.key c, s) := by rw [ScriptToken.next, h, h']
    rw [ih, ScriptToken.tokens_of_next hnext, List.map_append, List.append_assoc]
    rfl

/-- **Looking ahead by bytes finds the same steps.** -/
theorem scan_eq_ofScript (script : List Char) : scan [] [] script = ofScript script :=
  scan_eq_ofTokens [] [] script

/-! ### The laws of scripts -/

theorem ofScript_escapeWord (hw : w.map Char.toLower = escapeWord) (s t : List Char) :
    ofScript (s ++ w ++ t) = ofScript s ++ .escape :: ofScript t := by
  have hsteps := ofTokens_append_escape (tokens s) (tokens t)
  rw [← ScriptToken.tokens_escapeWord hw] at hsteps
  exact hsteps

/-- **Scripts split at their tokens.**  `<esc>` divides a script in two, `<cr>` is a line feed, and
text without tokens is one step that types it, if there is any text.  So no step types nothing and
no two steps of typing meet; and a script with `<esc>` in it does what its first part does, returns
to normal mode, and does what its second part does.  Capitals and small letters are alike in a
token, and it does not matter what is around it. -/
theorem ofScript_splits :
    (∀ script, scan [] [] script = ofScript script) ∧
    (∀ s w t, w.map Char.toLower = escapeWord →
      ofScript (s ++ w ++ t) = ofScript s ++ [.escape] ++ ofScript t) ∧
    (∀ s w t, w.map Char.toLower = returnWord →
      ofScript (s ++ w ++ t) = ofScript (s ++ ['\n'] ++ t)) ∧
    (∀ s, TokenFree s → s ≠ [] → ofScript s = [.keys s]) ∧ ofScript [] = [] ∧
    (∀ script, .keys [] ∉ ofScript script) ∧
    (∀ script before text text' after,
      ofScript script ≠ before ++ .keys text :: .keys text' :: after) ∧
    ∀ (e : Editor) s w t, w.map Char.toLower = escapeWord →
      e.runScript (s ++ w ++ t) = (e.runScript s).forceNormal.runScript t := by
  have halternates (script : List Char) : Alternating (ofScript script) :=
    alternating_ofTokens (tokens script)
  refine ⟨scan_eq_ofScript, ?escape, ?lineFeed, ?free, ?nothing, ?typed, ?apart, ?run⟩
  case escape =>
    intro s w t hw
    rw [ofScript_escapeWord hw, List.append_assoc, List.singleton_append]
  case lineFeed =>
    intro s w t hw
    rw [ofScript, ofScript, ScriptToken.tokens_returnWord hw, List.append_assoc,
      List.singleton_append, ScriptToken.tokens_lineFeed]
  case free =>
    intro s hfree hne
    have hsteps : ofScript s = typing s := by
      rw [← ofTokens_map_key, ← hfree.tokens_eq]
      rfl
    obtain ⟨c, text, rfl⟩ := List.exists_cons_of_ne_nil hne
    exact hsteps
  case nothing =>
    rw [ofScript, tokens]
    rfl
  case typed => exact fun script => (halternates script).keys_nil_not_mem
  case apart => exact fun script before text text' after => (halternates script).apart text text'
  case run =>
    intro e s w t hw
    rw [Editor.runScript, ofScript_escapeWord hw, List.foldl_append, List.foldl_cons]
    rfl

/-- An unfinished token before a token, and a character of two bytes before another one. -/
theorem ofScript_splits_unfinished :
    let unfinished := ['<', 'e', 's']
    let rest := ['é'] ++ ['<', 'c', 'R', '>'] ++ ['<']
    let script := unfinished ++ ['<', 'E', 's', 'C', '>'] ++ rest
    let e : Editor := { config := {} }
    ofScript script = [.keys unfinished, .escape, .keys ['é', '\n', '<']] ∧
      e.runScript script = (e.runScript unfinished).forceNormal.runScript rest := by
  intro unfinished rest script e
  obtain ⟨-, hescape, hreturn, hfree, -, -, -, hrun⟩ := ofScript_splits
  have hrest : ofScript rest = [.keys ['é', '\n', '<']] := by
    rw [hreturn _ _ _ (by decide)]
    exact hfree _ (.of_not_mem (by decide)) (by simp)
  have hunfinished : ofScript unfinished = [.keys unfinished] :=
    hfree _ (.of_not_mem (by decide)) (by simp [unfinished])
  refine ⟨?_, hrun e _ _ _ (by decide)⟩
  rw [hescape _ _ _ (by decide), hunfinished, hrest]
  rfl

end ScriptStep

end ModalEditor
