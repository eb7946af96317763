import Mathlib.Data.List.Induction
import ModalEditor.Command.Reader

/-!
# How commands are spelled

`Command.Spells` is the grammar of the commands of normal mode,
`[count] operator [[count] motion] [argument]`, where the operator can stand as its own motion.  It
says which keys spell which command, without regard to how keys are read.

Reading follows the grammar.  The keys of a spelling complete their command with the last key and no
sooner (`Reading.ofKeys_of_spells`); a command is only ever completed by the keys that spell it
(`Reading.Sound.spells`); and a key is passed over exactly if no spelling goes on with it.  For this
a `Reading` goes along with a run of keys and writes down which of them have been taken for the
command in progress.
-/

namespace ModalEditor

/-! ### Counts -/

namespace Digits

variable {ds : Digits} {c : Char}

/-- Digits that spell a count: the first one is not zero. -/
inductive IsNumeral : Digits → Prop where
  | digit {d : Char} (h : d.isDigit) (hzero : d ≠ '0') : IsNumeral [d]
  | snoc {ds : Digits} {d : Char} (hds : IsNumeral ds) (h : d.isDigit) : IsNumeral (ds ++ [d])

theorem IsNumeral.ne_nil (h : ds.IsNumeral) : ds ≠ [] := by
  cases h <;> simp

/-- The decimal digits of a positive number spell a count. -/
theorem isNumeral_toDigits {n : Nat} (hn : 0 < n) : IsNumeral (Nat.toDigits 10 n) := by
  have hdigit : ∀ d < 10, d.digitChar.isDigit ∧ (d ≠ 0 → d.digitChar ≠ '0') := by decide
  induction n using Nat.strongRecOn with
  | ind n ih =>
    by_cases hlt : n < 10
    · rw [Nat.toDigits_of_lt_base hlt]
      exact .digit (hdigit n hlt).1 ((hdigit n hlt).2 (by omega))
    · rw [Nat.toDigits_of_base_le (by decide) (by omega)]
      exact .snoc (ih (n / 10) (by omega) (by omega)) (hdigit (n % 10) (by omega)).1

/-- A count that may be missing. -/
def IsCount (ds : Digits) : Prop := ds = [] ∨ ds.IsNumeral

/-- The number that a count stands for: one if it is missing, and never more than the greatest. -/
def amount (ds : Digits) : Nat := if ds = [] then 1 else min (Nat.ofDigitChars 10 ds 0) maximum

/-- A count cannot go on with `c`. -/
def EndsAt (ds : Digits) (c : Char) : Prop := ¬('1' ≤ c ∧ c ≤ '9') ∧ (ds ≠ [] → c ≠ '0')

theorem accepts_iff : ds.accepts c = true ↔ c.isDigit = true ∧ (c = '0' → ds ≠ []) := by
  by_cases hc : c = '0'
  · subst hc; simp [accepts]
  · simp [accepts, hc]

theorem accepts_eq_false_iff : ds.accepts c = false ↔ ds.EndsAt c := by
  have hdigit : c.isDigit = true ↔ '1' ≤ c ∧ c ≤ '9' ∨ c = '0' := by
    simp only [Char.isDigit, Bool.and_eq_true, decide_eq_true_eq, Char.le_def, Char.ext_iff,
      UInt32.le_iff_toNat_le, ← UInt32.toNat_inj, ge_iff_le]
    simp
    omega
  rw [← Bool.not_eq_true, accepts_iff, hdigit, EndsAt]
  by_cases hc : c = '0'
  · subst hc; simp
  · simp [hc]

theorem accepts_of_isDigit (h : c.isDigit = false) (ds : Digits) : ds.accepts c = false := by
  simp [accepts, h]

theorem EndsAt.of_isDigit (h : c.isDigit = false) : ds.EndsAt c :=
  accepts_eq_false_iff.1 (accepts_of_isDigit h ds)

/-- Cutting a number down at every digit is cutting it down once. -/
theorem foldl_min_eq (ds : Digits) (n : Nat) :
    ds.foldl (fun n c => min (n * 10 + value c) maximum) (min n maximum) =
      min (Nat.ofDigitChars 10 ds n) maximum := by
  induction ds generalizing n with
  | nil => rfl
  | cons c ds ih =>
    have hcut : min (min n maximum * 10 + value c) maximum = min (10 * n + value c) maximum := by
      simp only [maximum]; omega
    rw [List.foldl_cons, hcut, ih]
    rfl

theorem count_eq_amount (ds : Digits) : ds.count = ds.amount := by
  rw [count, amount]
  cases ds with
  | nil => rfl
  | cons c ds =>
    simp only [List.isEmpty_cons, Bool.false_eq_true, if_false, reduceCtorEq]
    exact foldl_min_eq (c :: ds) 0

theorem amount_toDigits {n : Nat} (hn : 0 < n) : amount (Nat.toDigits 10 n) = min n maximum := by
  rw [amount, if_neg (isNumeral_toDigits hn).ne_nil,
    Nat.ofDigitChars_toDigits (by decide) (by decide)]

theorem IsCount.snoc (h : ds.IsCount) (hc : ds.accepts c = true) : IsCount (ds ++ [c]) := by
  obtain ⟨hdigit, hzero⟩ := accepts_iff.1 hc
  rcases h with rfl | h
  · exact .inr (.digit hdigit fun h => hzero h rfl)
  · exact .inr (.snoc h hdigit)

/-- A count is never zero. -/
theorem IsNumeral.pos (h : ds.IsNumeral) : 0 < Nat.ofDigitChars 10 ds 0 := by
  induction h with
  | @digit d h hzero =>
    obtain ⟨hlow, -⟩ := Char.isDigit_iff_toNat.1 h
    have hne : d.toNat ≠ '0'.toNat := fun heq => hzero (Char.toNat_inj.1 heq)
    rw [Nat.ofDigitChars_cons, Nat.ofDigitChars_nil]
    omega
  | snoc hds h ih =>
    rw [Nat.ofDigitChars_append, Nat.ofDigitChars_cons, Nat.ofDigitChars_nil]
    omega

theorem IsCount.amount_pos (h : ds.IsCount) : 0 < ds.amount := by
  rw [amount]
  rcases h with rfl | h
  · exact Nat.one_pos
  · rw [if_neg h.ne_nil]
    exact Nat.lt_min.2 ⟨h.pos, by decide⟩

end Digits

/-! ### The table of commands -/

/-- A key whose operator takes a range is no digit, and it is no motion. -/
theorem Config.motionKey_of_range {config : Config} {c : Char}
    (h : (config.operator? c).map Operator.arity = some .range) :
    c.isDigit = false ∧ MotionKey.ofChar? c = none := by
  unfold operator? at h
  cases hhost : config.hostCommands? c with
  | some names => rw [hhost] at h; cases h
  | none =>
    rw [hhost] at h
    dsimp only at h
    unfold Operator.builtin? at h
    split at h <;> first | exact ⟨rfl, rfl⟩ | cases h

/-- The key of a motion is no digit. -/
theorem MotionKey.isDigit_of_ofChar? {c : Char} {m : MotionKey} (h : ofChar? c = some m) :
    c.isDigit = false := by
  unfold ofChar? at h
  split at h <;> first | rfl | cases h

/-- The key `i` always completes a command. -/
theorem Config.arity_insertBefore (config : Config) :
    (config.operator? 'i').map Operator.arity = some .alone := by
  unfold operator?
  cases config.hostCommands? 'i' <;> rfl

/-! ### The grammar -/

namespace Command

/-- The key `op` is an operator of arity `a`, and it can follow the count `ds`. -/
structure Opens (config : Config) (a : Arity) (ds : Digits) (op : Char) : Prop where
  isCount : ds.IsCount
  endsAt : ds.EndsAt op
  arity : (config.operator? op).map Operator.arity = some a

/-- The keys that spell a command in normal mode. -/
inductive Spells (config : Config) : List Char → Command → Prop where
  | alone {ds : Digits} {op : Char} (h : Opens config .alone ds op) :
      Spells config (ds ++ [op]) { operator := op, count := ds.amount }
  | standIn {ds : Digits} {op : Char} (h : Opens config .standIn ds op) :
      Spells config (ds ++ [op]) { operator := op, count := ds.amount, isVirtual := true }
  | argument {ds : Digits} {op : Char} (h : Opens config .argument ds op) (c : Char) :
      Spells config (ds ++ [op] ++ [c]) { operator := op, count := ds.amount, argument := some c }
  | wholeLine {ds es : Digits} {op : Char} (h : Opens config .range ds op) (hes : es.IsCount) :
      Spells config (ds ++ op :: es ++ [op])
        { operator := op, motion := some op, count := ds.amount, motionCount := es.amount }
  | motion {ds es : Digits} {op k : Char} {m : MotionKey} (h : Opens config .range ds op)
      (hes : es.IsCount) (hk : MotionKey.ofChar? k = some m) (hm : m.takesArgument = false) :
      Spells config (ds ++ op :: es ++ [k])
        { operator := op, motion := some k, count := ds.amount, motionCount := es.amount }
  | motionArgument {ds es : Digits} {op k : Char} {m : MotionKey} (h : Opens config .range ds op)
      (hes : es.IsCount) (hk : MotionKey.ofChar? k = some m) (hm : m.takesArgument = true)
      (c : Char) :
      Spells config (ds ++ op :: es ++ [k] ++ [c])
        { operator := op, motion := some k, count := ds.amount, motionCount := es.amount
          argument := some c }

/-- The key of an operator with a range, without a count. -/
theorem opens_range {config : Config} {op : Char} {o : Operator}
    (hop : config.operator? op = some o) (ho : o.arity = .range) : Opens config .range [] op := by
  have harity : (config.operator? op).map Operator.arity = some .range := by
    rw [hop, Option.map_some, ho]
  exact ⟨.inl rfl, .of_isDigit (Config.motionKey_of_range harity).1, harity⟩

theorem Opens.accepts_eq_false {config : Config} {a : Arity} {ds : Digits} {op : Char}
    (h : Opens config a ds op) : ds.accepts op = false := Digits.accepts_eq_false_iff.2 h.endsAt

/-- No motion stands at the key of an operator with a range. -/
theorem Opens.ne_of_ofChar? {config : Config} {ds : Digits} {op k : Char} {m : MotionKey}
    (h : Opens config .range ds op) (hk : MotionKey.ofChar? k = some m) : k ≠ op := by
  rintro rfl
  rw [(Config.motionKey_of_range h.arity).2] at hk
  cases hk

end Command

/-! ### What a key does to the reader -/

namespace NormalReader

open Command (Opens Spells)

variable {config : Config} {r : NormalReader} {c : Char}

/-- What has been read is the front of a spelling. -/
def Valid (config : Config) : NormalReader → Prop
  | operator ds => ds.IsCount
  | motion ds op es => Opens config .range ds op ∧ es.IsCount
  | argument ds op none => Opens config .argument ds op
  | argument ds op (some (es, k)) =>
      Opens config .range ds op ∧ es.IsCount ∧
        ∃ m, MotionKey.ofChar? k = some m ∧ m.takesArgument = true

/-- A key is passed over, or taken for the command in progress, or completes it. -/
inductive Step (config : Config) (r : NormalReader) (c : Char) :
    NormalReader × Option Command → Prop where
  | skip : Step config r c (r, none)
  | take {s : NormalReader} (hpending : s.pending = r.pending ++ [c]) (hs : s.Valid config) :
      Step config r c (s, none)
  | complete {d : Command} (h : Spells config (r.pending ++ [c]) d) :
      Step config r c (initial, some d)

theorem step_operator {ds : Digits} (h : ds.IsCount) :
    Step config (operator ds) c (read config (operator ds) c) := by
  cases hc : ds.accepts c with
  | true =>
    simp only [read, hc, if_true]
    exact .take rfl (h.snoc hc)
  | false =>
    simp only [read, hc, Bool.false_eq_true, if_false, Digits.count_eq_amount]
    have hopens {a : Arity} (ha : (config.operator? c).map Operator.arity = some a) :
        Opens config a ds c := ⟨h, Digits.accepts_eq_false_iff.1 hc, ha⟩
    cases harity : (config.operator? c).map Operator.arity with
    | none => exact .skip
    | some a =>
      cases a with
      | alone => exact .complete (.alone (hopens harity))
      | standIn => exact .complete (.standIn (hopens harity))
      | range => exact .take rfl ⟨hopens harity, .inl rfl⟩
      | argument => exact .take rfl (hopens harity)

theorem step_motion {ds es : Digits} {op : Char} (h : Opens config .range ds op)
    (hes : es.IsCount) : Step config (motion ds op es) c (read config (motion ds op es) c) := by
  cases hc : es.accepts c with
  | true =>
    simp only [read, hc, if_true]
    exact .take (by simp [pending]) ⟨h, hes.snoc hc⟩
  | false =>
    simp only [read, hc, Bool.false_eq_true, if_false, Digits.count_eq_amount]
    by_cases hop : c = op
    · subst hop
      rw [if_pos rfl]
      exact .complete (.wholeLine h hes)
    · rw [if_neg hop]
      cases hk : MotionKey.ofChar? c with
      | none => exact .skip
      | some m =>
        dsimp only
        cases hm : m.takesArgument with
        | true => exact .take rfl ⟨h, hes, m, hk, hm⟩
        | false => exact .complete (.motion h hes hk hm)

theorem step_argument {ds : Digits} {op : Char} {m : Option (Digits × Char)}
    (h : (argument ds op m).Valid config) :
    Step config (argument ds op m) c (read config (argument ds op m) c) := by
  rcases m with _ | ⟨es, k⟩
  · simp only [read, Digits.count_eq_amount]
    exact .complete (.argument h c)
  · obtain ⟨h, hes, m, hk, hm⟩ := h
    simp only [read, Digits.count_eq_amount]
    exact .complete (.motionArgument h hes hk hm c)

theorem step_read (h : r.Valid config) (c : Char) : Step config r c (r.read config c) := by
  cases r with
  | operator ds => exact step_operator h
  | motion ds op es => exact step_motion h.1 h.2
  | argument ds op m => exact step_argument h

/-- What is the front of a spelling can be completed. -/
theorem Valid.exists_spells (h : r.Valid config) :
    ∃ more d, Spells config (r.pending ++ more) d := by
  rcases r with ds | ⟨ds, op, es⟩ | ⟨ds, op, _ | ⟨es, k⟩⟩
  · exact ⟨['i'], _, .alone ⟨h, .of_isDigit rfl, config.arity_insertBefore⟩⟩
  · exact ⟨[op], _, .wholeLine h.1 h.2⟩
  · exact ⟨['x'], _, .argument h 'x'⟩
  · obtain ⟨h, hes, m, hk, hm⟩ := h
    exact ⟨['x'], _, .motionArgument h hes hk hm 'x'⟩

end NormalReader

/-! ### Runs of keys -/

/-- The account of a run of keys: the reader it has led to, the keys taken since the last command
was complete, and what each key has completed. -/
structure Reading where
  reader : NormalReader := .initial
  taken : List Char := []
  completed : List (Option Command) := []
deriving DecidableEq, Repr

namespace Reading

open Command (Opens Spells)

variable {config : Config} {a : Reading} {ds es : Digits} {op k c : Char} {keys : List Char}

/-- The account after one more key.  A key counts as taken if it changes the reader. -/
def read (config : Config) (a : Reading) (c : Char) : Reading :=
  let (reader, command) := a.reader.read config c
  { reader
    taken :=
      if command.isSome then [] else if reader = a.reader then a.taken else a.taken ++ [c]
    completed := a.completed ++ [command] }

/-- The account of a run of keys that begins with nothing read. -/
def ofKeys (config : Config) (keys : List Char) : Reading := keys.foldl (read config) {}

theorem ofKeys_snoc (keys : List Char) (c : Char) :
    ofKeys config (keys ++ [c]) = (ofKeys config keys).read config c := by
  simp [ofKeys]

/-! ### Completed commands are spelled -/

/-- The reader holds what has been taken, which is the front of a spelling. -/
structure Sound (config : Config) (a : Reading) : Prop where
  valid : a.reader.Valid config
  pending : a.reader.pending = a.taken

theorem pending_ne_snoc {r s : NormalReader} (h : s.pending = r.pending ++ [c]) : s ≠ r := by
  rintro rfl
  simpa using congrArg List.length h

theorem Sound.read (h : a.Sound config) (c : Char) : (a.read config c).Sound config := by
  obtain ⟨hvalid, hpending⟩ := h
  have hstep := NormalReader.step_read hvalid c
  unfold Reading.read
  generalize a.reader.read config c = result at hstep ⊢
  cases hstep with
  | skip => exact ⟨hvalid, by simpa using hpending⟩
  | take hs hvalid' => exact ⟨hvalid', by simp [pending_ne_snoc hs, hs, hpending]⟩
  | complete => exact ⟨.inl rfl, rfl⟩

theorem sound_ofKeys (config : Config) (keys : List Char) : (ofKeys config keys).Sound config := by
  induction keys using List.reverseRecOn with
  | nil => exact ⟨.inl rfl, rfl⟩
  | append_singleton keys c ih => rw [ofKeys_snoc]; exact ih.read c

/-- A command that a key completes is spelled by the keys taken for it. -/
theorem Sound.spells {d : Command} (h : a.Sound config) (hd : (a.reader.read config c).2 = some d) :
    Spells config (a.taken ++ [c]) d := by
  obtain ⟨hvalid, hpending⟩ := h
  have hstep := NormalReader.step_read hvalid c
  generalize a.reader.read config c = result at hstep hd
  cases hstep with
  | skip | take => cases hd
  | complete h =>
    cases hd
    rwa [← hpending]

/-! ### Spelled commands are completed -/

/-- All keys are taken, and they lead to the reader `r`. -/
structure Takes (config : Config) (keys : List Char) (r : NormalReader) : Prop where
  reader : (ofKeys config keys).reader = r
  taken : (ofKeys config keys).taken = keys
  completed : (ofKeys config keys).completed = List.replicate keys.length none

theorem takes_nil : Takes config [] .initial := ⟨rfl, rfl, rfl⟩

/-- A key that is taken. -/
theorem Takes.snoc {r s : NormalReader} (h : Takes config keys r)
    (hread : r.read config c = (s, none)) (hne : s ≠ r) : Takes config (keys ++ [c]) s := by
  obtain ⟨hreader, htaken, hcompleted⟩ := h
  constructor
  · rw [ofKeys_snoc, read, hreader, hread]
  · rw [ofKeys_snoc, read, hreader, hread]
    simp [hne, htaken]
  · rw [ofKeys_snoc, read, hreader, hread, hcompleted]
    simp [List.replicate_succ']

/-- A count is taken digit by digit. -/
theorem Takes.count {f : Digits → NormalReader} (h : Takes config keys (f []))
    (hf : ∀ ds c, Digits.accepts ds c = true → (f ds).read config c = (f (ds ++ [c]), none))
    (hne : ∀ ds c, f (ds ++ [c]) ≠ f ds) (hds : ds.IsCount) : Takes config (keys ++ ds) (f ds) := by
  rcases hds with rfl | hds
  · simpa using h
  induction hds with
  | digit hd hzero => exact h.snoc (hf [] _ (by simp [Digits.accepts, hd, hzero])) (hne [] _)
  | snoc hds hd ih =>
    rw [← List.append_assoc]
    exact ih.snoc (hf _ _ (by simp [Digits.accepts, hd, hds.ne_nil])) (hne _ _)

theorem takes_count (h : ds.IsCount) : Takes config ds (.operator ds) := by
  have hinitial : Takes config [] (.operator []) := takes_nil
  exact hinitial.count (fun ds c hc => by simp [NormalReader.read, hc]) (by simp) h

theorem takes_range (h : Opens config .range ds op) (hes : es.IsCount) :
    Takes config (ds ++ op :: es) (.motion ds op es) := by
  have hop : Takes config (ds ++ [op]) (.motion ds op []) :=
    (takes_count h.isCount).snoc (by simp [NormalReader.read, h.accepts_eq_false, h.arity])
      (by simp)
  have hmotion := hop.count (f := .motion ds op)
    (fun es c hc => by simp [NormalReader.read, hc]) (by simp) hes
  simpa using hmotion

theorem takes_argument (h : Opens config .argument ds op) :
    Takes config (ds ++ [op]) (.argument ds op none) :=
  (takes_count h.isCount).snoc (by simp [NormalReader.read, h.accepts_eq_false, h.arity]) (by simp)

theorem takes_motionArgument {m : MotionKey} (h : Opens config .range ds op) (hes : es.IsCount)
    (hk : MotionKey.ofChar? k = some m) (hm : m.takesArgument = true) :
    Takes config (ds ++ op :: es ++ [k]) (.argument ds op (some (es, k))) := by
  have haccepts := Digits.accepts_of_isDigit (MotionKey.isDigit_of_ofChar? hk) es
  have hne := h.ne_of_ofChar? hk
  exact (takes_range h hes).snoc (by simp [NormalReader.read, haccepts, hne, hk, hm]) (by simp)

/-- The keys of a spelling are taken one by one, and the last one completes the command. -/
theorem exists_takes_of_spells {d : Command} (h : Spells config keys d) :
    ∃ front c r, keys = front ++ [c] ∧ Takes config front r ∧
      r.read config c = (.initial, some d) := by
  cases h with
  | alone h =>
    refine ⟨_, _, _, rfl, takes_count h.isCount, ?_⟩
    simp [NormalReader.read, h.accepts_eq_false, h.arity, Digits.count_eq_amount]
  | standIn h =>
    refine ⟨_, _, _, rfl, takes_count h.isCount, ?_⟩
    simp [NormalReader.read, h.accepts_eq_false, h.arity, Digits.count_eq_amount]
  | argument h c =>
    refine ⟨_, c, _, rfl, takes_argument h, ?_⟩
    simp [NormalReader.read, Digits.count_eq_amount]
  | wholeLine h hes =>
    refine ⟨_, _, _, rfl, takes_range h hes, ?_⟩
    have haccepts := Digits.accepts_of_isDigit (Config.motionKey_of_range h.arity).1
    simp [NormalReader.read, haccepts, Digits.count_eq_amount]
  | motion h hes hk hm =>
    refine ⟨_, _, _, rfl, takes_range h hes, ?_⟩
    have haccepts := Digits.accepts_of_isDigit (MotionKey.isDigit_of_ofChar? hk)
    simp [NormalReader.read, haccepts, h.ne_of_ofChar? hk, hk, hm, Digits.count_eq_amount]
  | motionArgument h hes hk hm c =>
    refine ⟨_, c, _, rfl, takes_motionArgument h hes hk hm, ?_⟩
    simp [NormalReader.read, Digits.count_eq_amount]

/-- The keys of a spelling complete their command with the last key, and then nothing is read. -/
theorem ofKeys_of_spells {d : Command} (h : Spells config keys d) : ofKeys config keys =
    { completed := List.replicate (keys.length - 1) none ++ [some d] } := by
  obtain ⟨front, c, r, rfl, ⟨hreader, -, hcompleted⟩, hread⟩ := exists_takes_of_spells h
  rw [ofKeys_snoc, read, hreader, hread, hcompleted]
  simp

/-! ### Keys that are passed over -/

theorem taken_snoc (keys : List Char) (c : Char) :
    (ofKeys config (keys ++ [c])).taken.Sublist ((ofKeys config keys).taken ++ [c]) := by
  rw [ofKeys_snoc, read]
  dsimp only
  split
  · exact List.nil_sublist _
  · split
    · exact List.sublist_append_left _ _
    · exact .refl _

/-- What is taken are keys of the run, in order. -/
theorem taken_sublist (keys : List Char) : (ofKeys config keys).taken.Sublist keys := by
  induction keys using List.reverseRecOn with
  | nil => exact .refl _
  | append_singleton keys c ih => exact (taken_snoc keys c).trans (ih.append (.refl [c]))

/-- If all keys of a run have been taken, so have those at its front. -/
theorem taken_of_append {front back : List Char}
    (h : (ofKeys config (front ++ back)).taken = front ++ back) :
    (ofKeys config front).taken = front := by
  induction back using List.reverseRecOn with
  | nil => simpa using h
  | append_singleton back c ih =>
    refine ih ?_
    have hsub : (ofKeys config (front ++ back ++ [c])).taken.Sublist
        ((ofKeys config (front ++ back)).taken ++ [c]) := taken_snoc ..
    rw [List.append_assoc, h, ← List.append_assoc, List.append_sublist_append_right] at hsub
    exact (taken_sublist _).eq_of_length_le hsub.length_le

/-- The keys that have been taken lead to the same reader without those that were passed over. -/
theorem ofKeys_taken (keys : List Char) :
    (ofKeys config (ofKeys config keys).taken).reader = (ofKeys config keys).reader := by
  induction keys using List.reverseRecOn with
  | nil => rfl
  | append_singleton keys c ih =>
    have hstep := NormalReader.step_read (sound_ofKeys config keys).valid c
    rw [ofKeys_snoc, read]
    generalize hread : (ofKeys config keys).reader.read config c = result at hstep ⊢
    cases hstep with
    | skip => simpa using ih
    | take hs => simp [pending_ne_snoc hs, ofKeys_snoc, read, ih, hread]
    | complete => rfl

/-- No spelling goes on with a key that is passed over. -/
theorem not_spells_of_skip {more : List Char} {d : Command}
    (hread : (ofKeys config keys).reader.read config c = ((ofKeys config keys).reader, none)) :
    ¬Spells config ((ofKeys config keys).taken ++ c :: more) d := by
  intro h
  obtain ⟨front, e, r, heq, htakes, hlast⟩ := exists_takes_of_spells h
  rw [← ofKeys_taken] at hread
  generalize (ofKeys config keys).taken = taken at heq hread
  rcases List.eq_nil_or_concat more with rfl | ⟨more, e', rfl⟩
  · -- The key would be the last one of the spelling.
    obtain ⟨rfl, rfl⟩ : taken = front ∧ c = e := by simpa using heq
    rw [htakes.reader, hlast] at hread
    cases hread
  · -- The key would be taken.
    have heq : (taken ++ [c] ++ more) ++ [e'] = front ++ [e] := by simpa using heq
    obtain ⟨hfront, -⟩ := List.append_inj' heq rfl
    have htaken := htakes.taken
    rw [← hfront] at htaken
    have hlonger := taken_of_append htaken
    rw [ofKeys_snoc, read, hread] at hlonger
    have hlength := congrArg List.length hlonger
    have hsub : (ofKeys config taken).taken.Sublist taken := taken_sublist taken
    have hle := hsub.length_le
    simp only [Option.isSome_none, Bool.false_eq_true, if_false, if_true, List.length_append,
      List.length_singleton] at hlength
    omega

/-- A spelling goes on with a key that is not passed over. -/
theorem exists_spells_of_not_skip
    (hread : (ofKeys config keys).reader.read config c ≠ ((ofKeys config keys).reader, none)) :
    ∃ more d, Spells config ((ofKeys config keys).taken ++ c :: more) d := by
  obtain ⟨hvalid, hpending⟩ := sound_ofKeys config keys
  have hstep := NormalReader.step_read hvalid c
  generalize (ofKeys config keys).reader.read config c = result at hstep hread
  cases hstep with
  | skip => exact absurd rfl hread
  | take hs hvalid' =>
    obtain ⟨more, d, h⟩ := hvalid'.exists_spells
    rw [hs, hpending, List.append_assoc] at h
    exact ⟨more, d, h⟩
  | complete h =>
    rw [hpending] at h
    exact ⟨[], _, h⟩

/-- **Reading follows the grammar.**  The keys of a spelling, read from the start, complete their
command with the last key and nothing before, and then nothing is read.  Whatever the keys are, a
command that is completed is spelled by the keys taken for it, and a key is passed over exactly if
no spelling goes on with it. -/
theorem reads_spellings (config : Config) :
    (∀ keys d, Spells config keys d → ofKeys config keys =
      { reader := .initial, taken := []
        completed := List.replicate (keys.length - 1) none ++ [some d] }) ∧
    (∀ keys c d, ((ofKeys config keys).reader.read config c).2 = some d →
      Spells config ((ofKeys config keys).taken ++ [c]) d) ∧
    ∀ keys c, (ofKeys config keys).reader.read config c = ((ofKeys config keys).reader, none) ↔
      ¬∃ more d, Spells config ((ofKeys config keys).taken ++ c :: more) d := by
  refine ⟨fun keys d h => ofKeys_of_spells h, fun keys c d h => (sound_ofKeys config keys).spells h,
    fun keys c => ⟨?_, ?_⟩⟩
  · rintro hread ⟨more, d, h⟩
    exact not_spells_of_skip hread h
  · intro h
    by_cases hread : (ofKeys config keys).reader.read config c = ((ofKeys config keys).reader, none)
    · exact hread
    · exact absurd (exists_spells_of_not_skip hread) h

/-- Two counts, a motion, and its argument. -/
theorem reads_spellings_search :
    let keys := ['2', 'd', '3', 'f', 'x']
    let d : Command :=
      { operator := 'd', motion := some 'f', count := 2, motionCount := 3, argument := some 'x' }
    Spells {} keys d ∧ ofKeys {} keys = { completed := [none, none, none, none, some d] } := by
  intro keys d
  have hop : Opens {} .range ['2'] 'd' :=
    ⟨.inr (.digit rfl (by decide)), .of_isDigit rfl, by decide +kernel⟩
  have hcount : Digits.IsCount ['3'] := .inr (.digit rfl (by decide))
  have h : Spells {} keys d := .motionArgument hop hcount rfl rfl 'x'
  exact ⟨h, (reads_spellings {}).1 keys d h⟩

/-- The command is spelled, and an operator that is its own motion stands there twice in a row. -/
def SpellsAdjacent (config : Config) (keys : List Char) (d : Command) : Prop :=
  Spells config keys d ∧ (d.isWholeLine = true → [d.operator, d.operator] <:+ keys)

/-- An operator that is its own motion can have a count in between, which is read as the count of
the motion. -/
theorem not_spellsAdjacent_countedDouble :
    (ofKeys {} ['d', '3', 'd']).completed =
      [none, none, some { operator := 'd', motion := some 'd', motionCount := 3 }] ∧
    ¬∀ keys c d, ((ofKeys {} keys).reader.read {} c).2 = some d →
      SpellsAdjacent {} ((ofKeys {} keys).taken ++ [c]) d := by
  have hcompleted : (ofKeys {} ['d', '3', 'd']).completed =
      [none, none, some { operator := 'd', motion := some 'd', motionCount := 3 }] := by
    decide +kernel
  have hread : ((ofKeys {} ['d', '3']).reader.read {} 'd').2 =
      some { operator := 'd', motion := some 'd', motionCount := 3 } := by
    decide +kernel
  have htaken : (ofKeys {} ['d', '3']).taken = ['d', '3'] := by decide +kernel
  refine ⟨hcompleted, fun h => ?_⟩
  have hadjacent := (h _ _ _ hread).2 rfl
  rw [htaken] at hadjacent
  exact absurd hadjacent (by decide)

end Reading

end ModalEditor
