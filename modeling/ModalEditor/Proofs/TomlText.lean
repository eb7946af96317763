import ModalEditor.Toml.Quoted

/-!
# Reading the texts that are written

Each form of a text in TOML reads back as the text (`Toml.readText_writeText`), and each key as the
key (`Toml.readPart_writeKey`), if no quote follows.

Escapes are undone character by character (`Toml.Escapes`).  Between three quotes, a run of quotes
has to be read as a whole, because its length decides whether it closes the text; the proofs carry
along the quotes of the run so far.
-/

namespace ModalEditor

namespace Toml

variable {c : Char} {e s r : List Char} {k : Nat}

/-! ### Escapes -/

/-- After a backslash, `e` stands for `c`, whatever follows. -/
structure Escapes (e : List Char) (c : Char) : Prop where
  read (s : List Char) : readEscape (e ++ s) = some (c, s)
  /-- It is no line end to be passed over. -/
  newline (s : List Char) : newline? (skipSpaces (e ++ s)) = none

theorem escapes_quote : Escapes ['"'] '"' := ⟨fun _ => rfl, fun _ => rfl⟩

theorem escapes_backslash : Escapes ['\\'] '\\' := ⟨fun _ => rfl, fun _ => rfl⟩

/-- Two digits in hexadecimal give back an ASCII character. -/
theorem codePoint?_upperHexDigit : ∀ n < 128,
    codePoint? ['0', '0', upperHexDigit (n / 16), upperHexDigit (n % 16)] =
      some (Char.ofNat n) := by
  decide +kernel

theorem lt_of_isPrintable_eq_false (h : isPrintable c = false) : c.toNat < 128 := by
  simp only [isPrintable, Bool.and_eq_false_iff, decide_eq_false_iff_not, bne_eq_false_iff_eq] at h
  omega

/-- A control character is written as an escape. -/
theorem exists_escapeControl (h : isPrintable c = false) :
    ∃ e, escapeControl c = '\\' :: e ∧ Escapes e c := by
  unfold escapeControl
  by_cases hb : c = '\x08'
  · subst hb
    exact ⟨['b'], rfl, fun _ => rfl, fun _ => rfl⟩
  by_cases ht : c = '\t'
  · subst ht
    exact ⟨['t'], rfl, fun _ => rfl, fun _ => rfl⟩
  by_cases hn : c = '\n'
  · subst hn
    exact ⟨['n'], rfl, fun _ => rfl, fun _ => rfl⟩
  by_cases hf : c = '\x0c'
  · subst hf
    exact ⟨['f'], rfl, fun _ => rfl, fun _ => rfl⟩
  by_cases hr : c = '\r'
  · subst hr
    exact ⟨['r'], rfl, fun _ => rfl, fun _ => rfl⟩
  rw [if_neg hb, if_neg ht, if_neg hn, if_neg hf, if_neg hr]
  refine ⟨_, rfl, fun s => ?_, fun _ => rfl⟩
  have hcode := codePoint?_upperHexDigit c.toNat (lt_of_isPrintable_eq_false h)
  rw [Char.ofNat_toNat] at hcode
  simp [readEscape, hcode]

/-! ### Between double quotes -/

theorem readBasic_escape (h : Escapes e c) (s : List Char) :
    readBasic ('\\' :: (e ++ s)) = (readBasic s).map fun r => (c :: r.1, r.2) := by
  rw [readBasic]
  split
  · next hread => simp [h.read] at hread
  · next hread =>
    rw [h.read, Option.some_inj, Prod.mk.injEq] at hread
    obtain ⟨rfl, rfl⟩ := hread
    rfl

theorem readBasic_plain (hquote : c ≠ '"') (hbackslash : c ≠ '\\') (hc : isPlain c = true)
    (s : List Char) : readBasic (c :: s) = (readBasic s).map fun r => (c :: r.1, r.2) := by
  rw [readBasic]
  · rw [if_pos hc]
  · exact hquote
  · exact hbackslash

theorem escapeBasic_cons (c : Char) (s : List Char) : escapeBasic (c :: s) =
    (if c = '"' then ['\\', '"'] else if c = '\\' then ['\\', '\\']
      else if isPrintable c then [c] else escapeControl c) ++ escapeBasic s :=
  List.flatMap_cons

theorem isPlain_of_isPrintable (h : isPrintable c = true) : isPlain c = true := by
  simp [isPlain, h]

/-- **Between double quotes every text can be read.** -/
theorem readBasic_escapeBasic (s r : List Char) :
    readBasic (escapeBasic s ++ '"' :: r) = some (s, r) := by
  induction s with
  | nil => simp [escapeBasic, readBasic]
  | cons c s ih =>
    rw [escapeBasic_cons, List.append_assoc]
    by_cases hquote : c = '"'
    · subst hquote
      exact (readBasic_escape escapes_quote _).trans (by rw [ih]; rfl)
    by_cases hbackslash : c = '\\'
    · subst hbackslash
      exact (readBasic_escape escapes_backslash _).trans (by rw [ih]; rfl)
    rw [if_neg hquote, if_neg hbackslash]
    by_cases hc : isPrintable c = true
    · rw [if_pos hc, List.singleton_append,
        readBasic_plain hquote hbackslash (isPlain_of_isPrintable hc), ih]
      rfl
    · obtain ⟨e, he, hescapes⟩ := exists_escapeControl (eq_false_of_ne_true hc)
      rw [if_neg hc, he, List.cons_append, readBasic_escape hescapes, ih]
      rfl

/-! ### Between single quotes -/

theorem isPlain_of_isControl_eq_false (hc : isControl c = false) (hfeed : c ≠ '\n') :
    isPlain c = true := by
  simpa [isControl, hfeed] using hc

/-- **Between single quotes a text can be read that needs no escapes.** -/
theorem readLiteral_append (hs : ∀ c ∈ s, c ≠ '\'' ∧ isPlain c = true) (r : List Char) :
    readLiteral (s ++ '\'' :: r) = some (s, r) := by
  induction s with
  | nil => simp [readLiteral]
  | cons c s ih =>
    obtain ⟨⟨hquote, hc⟩, hs⟩ := List.forall_mem_cons.1 hs
    rw [List.cons_append, readLiteral, if_pos hc, ih hs]
    · rfl
    · exact hquote

/-! ### Between three quotes -/

section

variable {q : Char}

/-- The length of a run of quotes that something else follows. -/
theorem length_takeWhile_replicate (k : Nat) (hr : r.head? ≠ some q) :
    ((List.replicate k q ++ r).takeWhile (· == q)).length = k := by
  cases r with
  | nil => simp
  | cons d r =>
    have hd : d ≠ q := fun h => hr (by rw [h]; rfl)
    simp [hd]

/-- Of a run of up to five quotes the last three close. -/
theorem closing?_replicate (hk : k ≤ 2) (hr : r.head? ≠ some q) :
    closing? q (List.replicate (k + 3) q ++ r) = some (List.replicate k q, r) := by
  rw [closing?, length_takeWhile_replicate _ hr, if_neg (by omega), Nat.min_eq_left (by omega)]
  simp

/-- A shorter run closes nothing. -/
theorem closing?_eq_none (hk : k ≤ 2) (hr : r.head? ≠ some q) :
    closing? q (List.replicate k q ++ r) = none := by
  rw [closing?, length_takeWhile_replicate _ hr, if_pos (by omega)]

end

/-! ### Between three double quotes -/

theorem readBasicLines_escape (h : Escapes e c) (s : List Char) :
    readBasicLines false ('\\' :: (e ++ s)) =
      (readBasicLines false s).map fun r => (c :: r.1, r.2) := by
  rw [readBasicLines, if_neg (by rw [h.newline]; decide)]
  split
  · next hread => simp [h.read] at hread
  · next hread =>
    rw [h.read, Option.some_inj, Prod.mk.injEq] at hread
    obtain ⟨rfl, rfl⟩ := hread
    rfl

theorem readBasicLines_printable (hquote : c ≠ '"') (hbackslash : c ≠ '\\')
    (hc : isPrintable c = true) (s : List Char) :
    readBasicLines false (c :: s) = (readBasicLines false s).map fun r => (c :: r.1, r.2) := by
  have hfeed : c ≠ '\n' := by
    rintro rfl
    cases hc
  have hreturn : c ≠ '\r' := by
    rintro rfl
    cases hc
  rw [readBasicLines]
  · rw [if_neg (by simp), if_pos (isPlain_of_isPrintable hc)]
  · exact hfeed
  · exact fun _ h => absurd h hreturn
  · exact hquote
  · exact hbackslash

/-- A run of quotes that does not close is read as it is. -/
theorem readBasicLines_quotes (hk : k ≤ 2) (hs : s.head? ≠ some '"') :
    readBasicLines false (List.replicate k '"' ++ s) =
      (readBasicLines false s).map fun r => (List.replicate k '"' ++ r.1, r.2) := by
  induction k with
  | zero => simp
  | succ k ih =>
    have hclosing : closing? '"' ('"' :: (List.replicate k '"' ++ s)) = none :=
      closing?_eq_none (k := k + 1) hk hs
    rw [List.replicate_succ, List.cons_append, readBasicLines, hclosing]
    dsimp only
    rw [ih (by omega), Option.map_map]
    rfl

/-- **Between three double quotes every text can be read**, also after some quotes that stand as
they are, if no quote follows. -/
theorem readBasicLines_escapeLines (hk : k ≤ 2) (hr : r.head? ≠ some '"') (s : List Char) :
    readBasicLines false (List.replicate k '"' ++ (escapeLines k s ++ (['"', '"', '"'] ++ r))) =
      some (List.replicate k '"' ++ s, r) := by
  induction s generalizing k with
  | nil =>
    have hquotes : List.replicate k '"' ++ (escapeLines k [] ++ (['"', '"', '"'] ++ r)) =
        List.replicate (k + 3) '"' ++ r := by
      rw [← List.replicate_append_replicate, List.append_assoc]
      rfl
    rw [hquotes, List.replicate_succ, List.cons_append, readBasicLines, ← List.cons_append,
      ← List.replicate_succ, closing?_replicate hk hr, List.append_nil]
  | cons c s ih =>
    -- What is not a quote ends the run; what has been read of it stands before the rest.
    have hstep {t : List Char} (ht : t.head? ≠ some '"')
        (hread : readBasicLines false t = some (c :: s, r)) :
        readBasicLines false (List.replicate k '"' ++ t) =
          some (List.replicate k '"' ++ c :: s, r) := by
      rw [readBasicLines_quotes hk ht, hread]
      rfl
    have hrest := ih (k := 0) (by omega)
    rw [List.replicate_zero, List.nil_append, List.nil_append] at hrest
    have hescape {e : List Char} (he : Escapes e c) : readBasicLines false
        (List.replicate k '"' ++ '\\' :: (e ++ (escapeLines 0 s ++ (['"', '"', '"'] ++ r)))) =
          some (List.replicate k '"' ++ c :: s, r) := by
      refine hstep (by simp) ?_
      rw [readBasicLines_escape he, hrest]
      rfl
    rw [escapeLines]
    by_cases hquote : c = '"'
    · subst hquote
      rw [if_pos rfl]
      by_cases hrun : k < 2
      · have hmore := ih (k := k + 1) (by omega)
        rw [if_pos hrun]
        rw [List.replicate_succ', List.append_assoc, List.append_assoc] at hmore
        exact hmore
      · rw [if_neg hrun]
        exact hescape escapes_quote
    rw [if_neg hquote]
    by_cases hbackslash : c = '\\'
    · subst hbackslash
      rw [if_pos rfl]
      exact hescape escapes_backslash
    rw [if_neg hbackslash]
    by_cases hc : isPrintable c = true
    · rw [if_pos (by simp [hc])]
      refine hstep (by simpa using hquote) ?_
      rw [List.cons_append, readBasicLines_printable hquote hbackslash hc, hrest]
      rfl
    by_cases hfeed : c = '\n'
    · subst hfeed
      rw [if_pos (by simp)]
      refine hstep (by simp) ?_
      rw [List.cons_append, readBasicLines, hrest]
      rfl
    · obtain ⟨e, he, hescapes⟩ := exists_escapeControl (eq_false_of_ne_true hc)
      rw [if_neg (by simp [hc, hfeed]), he, List.append_assoc, List.cons_append]
      exact hescape hescapes

/-! ### Between three single quotes -/

/-- One step of counting the longest run of `q`: the run so far, and the longest one. -/
def countRun (q : Char) (n : Nat × Nat) (d : Char) : Nat × Nat :=
  if d = q then (n.1 + 1, max n.2 (n.1 + 1)) else (0, n.2)

theorem longestRun_eq (q : Char) (s : List Char) :
    longestRun q s = (s.foldl (countRun q) (0, 0)).2 := rfl

/-- The longest run only grows. -/
theorem le_foldl_countRun (q : Char) (s : List Char) (n : Nat × Nat) :
    n.2 ≤ (s.foldl (countRun q) n).2 := by
  induction s generalizing n with
  | nil => exact Nat.le_refl _
  | cons d s ih =>
    refine Nat.le_trans ?_ (ih _)
    unfold countRun
    split
    · exact Nat.le_max_left ..
    · exact Nat.le_refl _

theorem readLiteralLines_plain (hquote : c ≠ '\'') (hreturn : c ≠ '\r')
    (hc : isPlain c = true ∨ c = '\n') (s : List Char) :
    readLiteralLines (c :: s) = (readLiteralLines s).map fun r => (c :: r.1, r.2) := by
  by_cases hfeed : c = '\n'
  · subst hfeed
    rw [readLiteralLines]
  · rw [readLiteralLines]
    · rw [if_pos (hc.resolve_right hfeed)]
    · exact hfeed
    · exact fun _ h => absurd h hreturn
    · exact hquote

/-- A run of quotes that does not close is read as it is. -/
theorem readLiteralLines_quotes (hk : k ≤ 2) (hs : s.head? ≠ some '\'') :
    readLiteralLines (List.replicate k '\'' ++ s) =
      (readLiteralLines s).map fun r => (List.replicate k '\'' ++ r.1, r.2) := by
  induction k with
  | zero => simp
  | succ k ih =>
    have hclosing : closing? '\'' ('\'' :: (List.replicate k '\'' ++ s)) = none :=
      closing?_eq_none (k := k + 1) hk hs
    rw [List.replicate_succ, List.cons_append, readLiteralLines, hclosing]
    dsimp only
    rw [ih (by omega), Option.map_map]
    rfl

/-- **Between three single quotes a text can be read** that needs no escapes and has no run of three
quotes, also after some quotes of a run, if no quote follows. -/
theorem readLiteralLines_append {n : Nat} (hk : k ≤ 2) (hr : r.head? ≠ some '\'')
    (hs : ∀ c ∈ s, isControl c = false) (hrun : (s.foldl (countRun '\'') (k, n)).2 ≤ 2) :
    readLiteralLines (List.replicate k '\'' ++ (s ++ (['\'', '\'', '\''] ++ r))) =
      some (List.replicate k '\'' ++ s, r) := by
  induction s generalizing k n with
  | nil =>
    have hquotes : List.replicate k '\'' ++ ([] ++ (['\'', '\'', '\''] ++ r)) =
        List.replicate (k + 3) '\'' ++ r := by
      rw [← List.replicate_append_replicate, List.append_assoc]
      rfl
    rw [hquotes, List.replicate_succ, List.cons_append, readLiteralLines, ← List.cons_append,
      ← List.replicate_succ, closing?_replicate hk hr, List.append_nil]
  | cons c s ih =>
    obtain ⟨hc, htail⟩ := List.forall_mem_cons.1 hs
    rw [List.foldl_cons] at hrun
    by_cases hquote : c = '\''
    · subst hquote
      have hmore : k + 1 ≤ 2 := by
        have hlongest := le_foldl_countRun '\'' s (countRun '\'' (k, n) '\'')
        simp only [countRun, if_true] at hlongest hrun
        omega
      have hrest := ih hmore htail hrun
      rw [List.replicate_succ', List.append_assoc, List.append_assoc] at hrest
      exact hrest
    · have hrest := ih (k := 0) (n := n) (by omega) htail (by rwa [countRun, if_neg hquote] at hrun)
      rw [List.replicate_zero, List.nil_append, List.nil_append] at hrest
      have hreturn : c ≠ '\r' := by
        rintro rfl
        cases hc
      have hplain : isPlain c = true ∨ c = '\n' :=
        Decidable.or_iff_not_imp_right.2 (isPlain_of_isControl_eq_false hc)
      rw [List.cons_append, readLiteralLines_quotes hk (by simpa using hquote),
        readLiteralLines_plain hquote hreturn hplain, hrest]
      rfl

/-! ### Texts -/

/-- The first character is no line end. -/
theorem skipNewline_of_head (h : ∀ c, s.head? = some c → c ≠ '\n' ∧ c ≠ '\r') :
    skipNewline s = s := by
  cases s with
  | nil => rfl
  | cons c s =>
    obtain ⟨hfeed, hreturn⟩ := h c rfl
    unfold skipNewline newline?
    split
    · next heq => exact absurd (List.cons.inj heq).1 hfeed
    · next heq => exact absurd (List.cons.inj heq).1 hreturn
    · rfl

/-- The line end that is written after three opening quotes is passed over. -/
theorem skipNewline_threefold {body t : List Char}
    (hbody : '\n' ∉ s → ∀ c, (body ++ t).head? = some c → c ≠ '\n' ∧ c ≠ '\r') :
    skipNewline ((if s.contains '\n' then ['\n'] else []) ++ (body ++ t)) = body ++ t := by
  by_cases h : '\n' ∈ s
  · rw [if_pos (by simpa using h)]
    rfl
  · rw [if_neg (by simpa using h), List.nil_append, skipNewline_of_head (hbody h)]

theorem readText_basic {t : List Char} (h : ∀ u, t ≠ '"' :: '"' :: u) :
    readText ('"' :: t) = readBasic t := by
  unfold readText
  split
  · next heq => exact absurd (List.cons.inj heq).2 (h _)
  · next heq => rw [(List.cons.inj heq).2]
  · next heq => cases heq
  · next heq => cases heq
  · next hne _ _ => exact absurd rfl (hne t)

theorem readText_literal {t : List Char} (h : ∀ u, t ≠ '\'' :: '\'' :: u) :
    readText ('\'' :: t) = readLiteral t := by
  unfold readText
  split
  · next heq => cases heq
  · next heq => cases heq
  · next heq => exact absurd (List.cons.inj heq).2 (h _)
  · next heq => rw [(List.cons.inj heq).2]
  · next hne => exact absurd rfl (hne t)

/-- The text begins with no quote. -/
def NoQuote (r : List Char) : Prop := r.head? ≠ some '"' ∧ r.head? ≠ some '\''

/-- Between double quotes there is a quote at the front only of nothing. -/
theorem escapeBasic_append_ne (hs : s ≠ []) (r u : List Char) :
    escapeBasic s ++ '"' :: r ≠ '"' :: '"' :: u := by
  cases s with
  | nil => exact absurd rfl hs
  | cons c s =>
    rw [escapeBasic_cons]
    by_cases hquote : c = '"'
    · simp [hquote]
    by_cases hbackslash : c = '\\'
    · simp [hbackslash]
    by_cases hc : isPrintable c = true
    · simp [hquote, hbackslash, hc]
    · obtain ⟨e, he, -⟩ := exists_escapeControl (eq_false_of_ne_true hc)
      simp [hquote, hbackslash, hc, he]

theorem readText_writeForm_basic (s : List Char) (hr : NoQuote r) :
    readText (writeForm s .basic ++ r) = some (s, r) := by
  have hwrite : writeForm s .basic ++ r = '"' :: (escapeBasic s ++ '"' :: r) := by
    simp [writeForm]
  rw [hwrite, readText_basic, readBasic_escapeBasic]
  intro u hu
  by_cases hs : s = []
  · subst hs
    exact hr.1 (by rw [(List.cons.inj hu).2]; rfl)
  · exact escapeBasic_append_ne hs r u hu

theorem readText_writeForm_literal (hs : ∀ c ∈ s, c ≠ '\'' ∧ isPlain c = true) (hr : NoQuote r) :
    readText (writeForm s .literal ++ r) = some (s, r) := by
  have hwrite : writeForm s .literal ++ r = '\'' :: (s ++ '\'' :: r) := by simp [writeForm]
  rw [hwrite, readText_literal, readLiteral_append hs]
  intro u hu
  cases s with
  | nil => exact hr.2 (by rw [(List.cons.inj hu).2]; rfl)
  | cons c s => exact (hs c (by simp)).1 (List.cons.inj hu).1

theorem writeForm_basicLines_append (s r : List Char) : writeForm s .basicLines ++ r =
    '"' :: '"' :: '"' :: ((if s.contains '\n' then ['\n'] else []) ++
      (escapeLines 0 s ++ (['"', '"', '"'] ++ r))) := by
  simp [writeForm, threefold, List.replicate_succ]

theorem readText_writeForm_basicLines (s : List Char) (hr : NoQuote r) :
    readText (writeForm s .basicLines ++ r) = some (s, r) := by
  have hread := readBasicLines_escapeLines (k := 0) (by omega) hr.1 s
  rw [writeForm_basicLines_append, readText, skipNewline_threefold]
  · exact hread
  · -- Line ends in the text are either written as they are or as escapes.
    intro hfeed d hd
    cases s with
    | nil =>
      cases hd
      decide
    | cons c s =>
      have hc : c ≠ '\n' := fun h => hfeed (by simp [h])
      rw [escapeLines] at hd
      by_cases hquote : c = '"'
      · subst hquote
        cases hd
        decide
      by_cases hbackslash : c = '\\'
      · subst hbackslash
        cases hd
        decide
      by_cases hprintable : isPrintable c = true
      · simp only [hquote, hbackslash, hprintable, if_false, Bool.true_or, if_true,
          List.cons_append, List.head?_cons, Option.some_inj] at hd
        subst hd
        refine ⟨hc, ?_⟩
        rintro rfl
        cases hprintable
      · obtain ⟨e, he, -⟩ := exists_escapeControl (eq_false_of_ne_true hprintable)
        simp only [hquote, hbackslash, hprintable, hc, he, if_false, Bool.false_or, beq_iff_eq,
          List.cons_append, List.head?_cons, Option.some_inj] at hd
        subst hd
        decide

theorem readText_writeForm_literalLines (hs : ∀ c ∈ s, isControl c = false)
    (hrun : longestRun '\'' s ≤ 2) (hr : NoQuote r) :
    readText (writeForm s .literalLines ++ r) = some (s, r) := by
  have hwrite : writeForm s .literalLines ++ r =
      '\'' :: '\'' :: '\'' :: ((if s.contains '\n' then ['\n'] else []) ++
        (s ++ (['\'', '\'', '\''] ++ r))) := by
    simp [writeForm, threefold, List.replicate_succ]
  rw [longestRun_eq] at hrun
  have hread := readLiteralLines_append (k := 0) (by omega) hr.2 hs hrun
  rw [hwrite, readText, skipNewline_threefold]
  · exact hread
  · intro hfeed d hd
    cases s with
    | nil =>
      cases hd
      decide
    | cons c s =>
      obtain rfl : c = d := Option.some.inj hd
      refine ⟨fun h => hfeed (by simp [h]), ?_⟩
      rintro rfl
      cases hs '\r' (by simp)

/-- **A text that is written can be read**, if no quote follows. -/
theorem readText_writeText (t : String) (hr : NoQuote r) :
    readText (writeText t ++ r) = some (t.toList, r) := by
  unfold writeText TextForm.forText
  generalize t.toList = s
  dsimp only
  split
  · exact readText_writeForm_basic s hr
  split
  · next h =>
    refine readText_writeForm_literal (fun c hc => ?_) hr
    simp only [Bool.and_eq_true, Bool.not_eq_true', List.any_eq_false, List.contains_eq_mem,
      decide_eq_false_iff_not] at h
    obtain ⟨⟨hcontrol, hquote⟩, hfeed⟩ := h
    exact ⟨fun h => hquote (h ▸ hc), isPlain_of_isControl_eq_false
      (eq_false_of_ne_true (hcontrol c hc)) fun h => hfeed (h ▸ hc)⟩
  split
  · exact readText_writeForm_basicLines s hr
  split
  · next h =>
    simp only [Bool.and_eq_true, Bool.not_eq_true', List.any_eq_false, decide_eq_true_eq] at h
    exact readText_writeForm_literalLines (fun c hc => eq_false_of_ne_true (h.1 c hc)) h.2 hr
  split
  · exact readText_writeForm_basicLines s hr
  · exact readText_writeForm_basic s hr

/-! ### Keys -/

theorem readPart_bare (hs : s ≠ []) (hbare : ∀ c ∈ s, isBare c = true)
    (hr : ∀ c, r.head? = some c → isBare c = false) :
    readPart (s ++ r) = some (String.ofList s, r) := by
  have htake : (s ++ r).takeWhile isBare = s := by
    rw [List.takeWhile_append_of_pos hbare]
    cases r with
    | nil => simp
    | cons d r => simp [hr d rfl]
  have hdrop : (s ++ r).dropWhile isBare = r := by
    rw [List.dropWhile_append_of_pos hbare]
    cases r with
    | nil => rfl
    | cons d r => simp [hr d rfl]
  cases s with
  | nil => exact absurd rfl hs
  | cons c s =>
    have hc := hbare c (by simp)
    rw [List.cons_append] at htake hdrop ⊢
    unfold readPart
    split
    · next heq =>
      rw [(List.cons.inj heq).1] at hc
      cases hc
    · next heq =>
      rw [(List.cons.inj heq).1] at hc
      cases hc
    · rw [htake, hdrop]
      rfl

/-- **A key that is written can be read**, if something else follows. -/
theorem readPart_writeKey (k : String) (hr : ∀ c, r.head? = some c → isBare c = false) :
    readPart (writeKey k ++ r) = some (k, r) := by
  have hbasic : readPart (writeForm k.toList .basic ++ r) = some (k, r) := by
    have hwrite : writeForm k.toList .basic ++ r = '"' :: (escapeBasic k.toList ++ '"' :: r) := by
      simp [writeForm]
    rw [hwrite, readPart, readBasic_escapeBasic]
    simp
  unfold writeKey TextForm.forKey
  dsimp only
  split
  · next h =>
    simp only [Bool.and_eq_true, Bool.not_eq_true', List.isEmpty_eq_false_iff,
      List.all_eq_true] at h
    rw [readPart_bare h.1 h.2 hr, String.ofList_toList]
  split
  · exact hbasic
  split
  · next h =>
    simp only [Bool.and_eq_true, Bool.not_eq_true', Bool.or_eq_false_iff, List.any_eq_false,
      List.contains_eq_mem, decide_eq_false_iff_not] at h
    obtain ⟨⟨hcontrol, hfeed⟩, hquote⟩ := h
    have hliteral (c : Char) (hc : c ∈ k.toList) : c ≠ '\'' ∧ isPlain c = true :=
      ⟨fun h => hquote (h ▸ hc), isPlain_of_isControl_eq_false
        (eq_false_of_ne_true (hcontrol c hc)) fun h => hfeed (h ▸ hc)⟩
    have hwrite : writeForm k.toList .literal ++ r = '\'' :: (k.toList ++ '\'' :: r) := by
      simp [writeForm]
    rw [hwrite, readPart, readLiteral_append hliteral]
    simp
  · exact hbasic

end Toml

end ModalEditor
