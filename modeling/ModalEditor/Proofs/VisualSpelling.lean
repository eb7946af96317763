import ModalEditor.Proofs.VisualOperator

/-!
# How commands are spelled in visual mode

In visual mode the selection stands for the motion, and the grammar is shorter:
`[count] operator [argument]` (`Command.SpellsSelected`).  `Command.SpellsIn` is the grammar of a
mode, whichever it is.

`Editor.typeKey_cases` says what a key can do outside insert mode: it is taken or passed over, and
then only the keys read so far change, or it completes a spelling and dispatches its command.  The
other way round, typing a spelling dispatches its command (`Editor.foldl_typeKey_of_spellsIn`).
-/

namespace ModalEditor

namespace Digits

variable {ds : Digits}

theorem IsNumeral.isDigit (h : ds.IsNumeral) : ∀ d ∈ ds, d.isDigit = true := by
  induction h with
  | digit h => simpa using h
  | snoc _ h ih =>
    intro d hd
    rcases List.mem_append.1 hd with hd | hd
    · exact ih d hd
    · rwa [List.mem_singleton.1 hd]

/-- A count begins with a digit, if it begins at all. -/
theorem IsCount.eq_nil {keys rest : List Char} {c : Char} (h : ds.IsCount)
    (hkeys : ds ++ keys = c :: rest) (hc : c.isDigit = false) : ds = [] := by
  rcases h with rfl | h
  · rfl
  cases ds with
  | nil => rfl
  | cons d ds =>
    obtain ⟨rfl, -⟩ := List.cons.inj hkeys
    rw [h.isDigit d (List.mem_cons_self ..)] at hc
    cases hc

end Digits

namespace Command

variable {config : Config} {m : Mode} {keys : List Char} {c : Command}

/-- The keys that spell a command in visual mode. -/
inductive SpellsSelected (config : Config) : List Char → Command → Prop where
  | alone {ds : Digits} {op : Char} (h : Opens config .alone ds op) :
      SpellsSelected config (ds ++ [op]) { operator := op, count := ds.amount }
  | range {ds : Digits} {op : Char} (h : Opens config .range ds op) :
      SpellsSelected config (ds ++ [op]) { operator := op, count := ds.amount }
  | standIn {ds : Digits} {op : Char} (h : Opens config .standIn ds op) :
      SpellsSelected config (ds ++ [op])
        { operator := op, count := ds.amount, isVirtual := true }
  | argument {ds : Digits} {op : Char} (h : Opens config .argument ds op) (c : Char) :
      SpellsSelected config (ds ++ [op] ++ [c])
        { operator := op, count := ds.amount, argument := some c }

/-- The keys that spell a command in mode `m`; insert mode has no commands. -/
def SpellsIn (config : Config) : Mode → List Char → Command → Prop
  | .normal, keys, c => Spells config keys c
  | .visual, keys, c => SpellsSelected config keys c
  | .insert, _, _ => False

theorem Opens.exists_operator {a : Arity} {ds : Digits} {op : Char} (h : Opens config a ds op) :
    ∃ o, config.operator? op = some o ∧ o.arity = a :=
  Option.map_eq_some_iff.1 h.arity

/-- A spelled command has an operator, and those that stand in for others are the virtual ones. -/
theorem SpellsIn.exists_operator (h : SpellsIn config m keys c) :
    ∃ op, config.operator? c.operator = some op ∧ (c.isVirtual = true ↔ op.arity = .standIn) := by
  have hopens {a : Arity} {ds : Digits} {k : Char} {v : Bool} (ho : Opens config a ds k)
      (hv : v = true ↔ a = .standIn) :
      ∃ op, config.operator? k = some op ∧ (v = true ↔ op.arity = .standIn) := by
    obtain ⟨op, hop, rfl⟩ := ho.exists_operator
    exact ⟨op, hop, hv⟩
  cases m with
  | normal =>
    cases h with
    | alone h | standIn h | argument h _ | wholeLine h _ | motion h _ _ _
    | motionArgument h _ _ _ _ => exact hopens h (by simp)
  | visual =>
    cases h with
    | alone h | range h | standIn h | argument h _ => exact hopens h (by simp)
  | insert => cases h

theorem Opens.with_count {a : Arity} {ds es : Digits} {op : Char} (h : Opens config a ds op)
    (hdigit : op.isDigit = false) (hes : es.IsCount) : Opens config a es op :=
  ⟨hes, .of_isDigit hdigit, h.arity⟩

theorem Spells.with_count {rest : List Char} (h : Spells config (c.operator :: rest) c)
    (hdigit : c.operator.isDigit = false) : c.count = 1 ∧ ∀ es : Digits, es.IsCount →
      Spells config (es ++ c.operator :: rest) { c with count := es.amount } := by
  generalize hkeys : c.operator :: rest = keys at h
  cases h with
  | alone h =>
    obtain rfl := h.isCount.eq_nil hkeys.symm hdigit
    exact ⟨rfl, fun es hes => .alone (h.with_count hdigit hes)⟩
  | standIn h =>
    obtain rfl := h.isCount.eq_nil hkeys.symm hdigit
    exact ⟨rfl, fun es hes => .standIn (h.with_count hdigit hes)⟩
  | argument h k =>
    rw [List.append_assoc] at hkeys
    obtain rfl := h.isCount.eq_nil hkeys.symm hdigit
    refine ⟨rfl, fun es hes => ?_⟩
    simpa using Spells.argument (h.with_count hdigit hes) k
  | wholeLine h hes' =>
    rw [List.append_assoc] at hkeys
    obtain rfl := h.isCount.eq_nil hkeys.symm hdigit
    refine ⟨rfl, fun es hes => ?_⟩
    simpa using Spells.wholeLine (h.with_count hdigit hes) hes'
  | motion h hes' hk hm =>
    rw [List.append_assoc] at hkeys
    obtain rfl := h.isCount.eq_nil hkeys.symm hdigit
    refine ⟨rfl, fun es hes => ?_⟩
    simpa using Spells.motion (h.with_count hdigit hes) hes' hk hm
  | motionArgument h hes' hk hm k =>
    rw [List.append_assoc, List.append_assoc] at hkeys
    obtain rfl := h.isCount.eq_nil hkeys.symm hdigit
    refine ⟨rfl, fun es hes => ?_⟩
    simpa using Spells.motionArgument (h.with_count hdigit hes) hes' hk hm k

theorem SpellsSelected.with_count {rest : List Char}
    (h : SpellsSelected config (c.operator :: rest) c) (hdigit : c.operator.isDigit = false) :
    c.count = 1 ∧ ∀ es : Digits, es.IsCount →
      SpellsSelected config (es ++ c.operator :: rest) { c with count := es.amount } := by
  generalize hkeys : c.operator :: rest = keys at h
  cases h with
  | alone h =>
    obtain rfl := h.isCount.eq_nil hkeys.symm hdigit
    exact ⟨rfl, fun es hes => .alone (h.with_count hdigit hes)⟩
  | range h =>
    obtain rfl := h.isCount.eq_nil hkeys.symm hdigit
    exact ⟨rfl, fun es hes => .range (h.with_count hdigit hes)⟩
  | standIn h =>
    obtain rfl := h.isCount.eq_nil hkeys.symm hdigit
    exact ⟨rfl, fun es hes => .standIn (h.with_count hdigit hes)⟩
  | argument h k =>
    rw [List.append_assoc] at hkeys
    obtain rfl := h.isCount.eq_nil hkeys.symm hdigit
    refine ⟨rfl, fun es hes => ?_⟩
    simpa using SpellsSelected.argument (h.with_count hdigit hes) k

/-- A command that is spelled without a count is spelled with any count in front. -/
theorem SpellsIn.with_count {rest : List Char} (h : SpellsIn config m (c.operator :: rest) c)
    (hdigit : c.operator.isDigit = false) : c.count = 1 ∧ ∀ es : Digits, es.IsCount →
      SpellsIn config m (es ++ c.operator :: rest) { c with count := es.amount } := by
  cases m with
  | normal => exact Spells.with_count h hdigit
  | visual => exact SpellsSelected.with_count h hdigit
  | insert => cases h

end Command

/-! ### What a key does to the reader -/

namespace VisualReader

open Command (Opens SpellsSelected)

variable {config : Config} {r : VisualReader}

/-- What has been read is the front of a spelling. -/
def Valid (config : Config) : VisualReader → Prop
  | operator ds => ds.IsCount
  | argument ds op => Opens config .argument ds op

/-- A key is passed over, or taken for the command in progress, or completes it. -/
inductive Step (config : Config) (r : VisualReader) (c : Char) :
    VisualReader × Option Command → Prop where
  | skip : Step config r c (r, none)
  | take {s : VisualReader} (hpending : s.pending = r.pending ++ [c]) (hs : s.Valid config) :
      Step config r c (s, none)
  | complete {d : Command} (h : SpellsSelected config (r.pending ++ [c]) d) :
      Step config r c (initial, some d)

theorem step_read (h : r.Valid config) (c : Char) : Step config r c (r.read config c) := by
  rcases r with ds | ⟨ds, op⟩
  · cases hc : Digits.accepts ds c with
    | true =>
      simp only [read, hc, if_true]
      exact .take rfl (Digits.IsCount.snoc h hc)
    | false =>
      simp only [read, hc, Bool.false_eq_true, if_false, Digits.count_eq_amount]
      have hopens {a : Arity} (ha : (config.operator? c).map Operator.arity = some a) :
          Opens config a ds c := ⟨h, Digits.accepts_eq_false_iff.1 hc, ha⟩
      cases harity : (config.operator? c).map Operator.arity with
      | none => exact .skip
      | some a =>
        cases a with
        | alone => exact .complete (.alone (hopens harity))
        | range => exact .complete (.range (hopens harity))
        | standIn => exact .complete (.standIn (hopens harity))
        | argument => exact .take rfl (hopens harity)
  · simp only [read, Digits.count_eq_amount]
    exact .complete (.argument h c)

end VisualReader

namespace Phase

/-- What has been read is the front of a spelling. -/
def Valid (config : Config) : Phase → Prop
  | normal r => r.Valid config
  | insert _ => True
  | visual _ _ r => r.Valid config

theorem Valid.of_dropPending {config : Config} {p : Phase} (h : p.dropPending = p) :
    p.Valid config := by
  rw [← h]
  cases p with
  | normal | visual => exact .inl rfl
  | insert => trivial

theorem dropPending_of_pending {p : Phase} (h : p.pending = []) (hm : p.mode ≠ .insert) :
    p.dropPending = p := by
  cases p with
  | normal r =>
    rw [eq_initial rfl h]
    rfl
  | insert => exact absurd rfl hm
  | visual a lineWise r =>
    cases r with
    | operator ds =>
      rw [show ds = [] from h]
      rfl
    | argument ds op => simp [pending, VisualReader.pending] at h

end Phase

namespace Editor

open Command (SpellsIn)

variable {e : Editor} {keys : List Char} {d : Command}

/-- **What a key does outside insert mode.**  Either only the keys read so far change, or the key
completes a spelling, and its command is dispatched with nothing read of the next one. -/
theorem typeKey_cases (h : e.phase.Valid e.config) (hm : e.mode ≠ .insert) (k : Char) :
    (∃ p : Phase, p.dropPending = e.phase.dropPending ∧ p.Valid e.config ∧
      e.typeKey k = { e with phase := p }) ∨
    ∃ keys d, SpellsIn e.config e.mode keys d ∧
      e.typeKey k = { e with phase := e.phase.dropPending }.dispatch d := by
  cases hp : e.phase with
  | insert typed => exact absurd (congrArg Phase.mode hp) hm
  | normal r =>
    have hr : r.Valid e.config := by rwa [hp] at h
    have hmode : e.mode = .normal := congrArg Phase.mode hp
    have hstep := NormalReader.step_read hr k
    generalize hread : r.read e.config k = result at hstep
    cases hstep with
    | skip => exact .inl ⟨.normal r, rfl, hr, by simp only [typeKey, hp, hread]; rfl⟩
    | @take reading hs hvalid =>
      refine .inl ⟨.normal reading, rfl, hvalid, ?_⟩
      simp only [typeKey, hp, hread, dispatch?]
    | complete hspells =>
      refine .inr ⟨r.pending ++ [k], _, ?_, by simp only [typeKey, hp, hread]; rfl⟩
      rw [hmode]
      exact hspells
  | visual a lineWise r =>
    have hr : r.Valid e.config := by rwa [hp] at h
    have hmode : e.mode = .visual := congrArg Phase.mode hp
    have hstep := VisualReader.step_read hr k
    generalize hread : r.read e.config k = result at hstep
    cases hstep with
    | skip => exact .inl ⟨.visual a lineWise r, rfl, hr, by simp only [typeKey, hp, hread]; rfl⟩
    | @take reading hs hvalid =>
      refine .inl ⟨.visual a lineWise reading, rfl, hvalid, ?_⟩
      simp only [typeKey, hp, hread, dispatch?]
    | complete hspells =>
      refine .inr ⟨r.pending ++ [k], _, ?_, by simp only [typeKey, hp, hread]; rfl⟩
      rw [hmode]
      exact hspells

theorem foldl_typeKey_of_spellsSelected {a : Position} {lineWise : Bool}
    (hphase : e.phase = .visual a lineWise .initial)
    (h : Command.SpellsSelected e.config keys d) : keys.foldl typeKey e = e.dispatch d := by
  let reading (ds : Digits) : Editor := { e with phase := .visual a lineWise (.operator ds) }
  have hself : reading [] = e := with_phase_self hphase
  -- the count
  have hcount {ds : Digits} (hds : ds.IsCount) : ds.foldl typeKey e = reading ds := by
    rcases hds with rfl | hds
    · exact hself.symm
    · have hdigits := foldl_typeKey_digits (f := reading)
        (fun ds c hc => by simp [reading, typeKey, VisualReader.read, hc, dispatch?]) hds
      rwa [hself] at hdigits
  -- the operator, which may complete the command
  have hdispatch (d : Command) :
      { e with phase := .visual a lineWise .initial }.dispatch? (some d) = e.dispatch d := by
    rw [with_phase_self hphase]
    rfl
  cases h with
  | alone h | range h | standIn h =>
    rw [List.foldl_append, hcount h.isCount, ← hdispatch]
    simp [reading, typeKey, VisualReader.read, h.accepts_eq_false, h.arity,
      Digits.count_eq_amount]
  | argument h c =>
    rw [List.foldl_append, List.foldl_append, hcount h.isCount, ← hdispatch]
    simp [reading, typeKey, VisualReader.read, h.accepts_eq_false, h.arity, dispatch?,
      Digits.count_eq_amount]

/-- **Typing a spelling dispatches its command**, in either mode that has commands. -/
theorem foldl_typeKey_of_spellsIn (hphase : e.phase.dropPending = e.phase)
    (h : SpellsIn e.config e.mode keys d) : keys.foldl typeKey e = e.dispatch d := by
  cases hp : e.phase with
  | normal r =>
    rw [mode, hp] at h
    rw [hp] at hphase
    exact foldl_typeKey_of_spells (hp.trans hphase.symm) h
  | insert typed =>
    rw [mode, hp] at h
    cases h
  | visual a lineWise r =>
    rw [mode, hp] at h
    rw [hp] at hphase
    exact foldl_typeKey_of_spellsSelected (hp.trans hphase.symm) h

end Editor

end ModalEditor
