import ModalEditor.Proofs.Loop
import ModalEditor.Proofs.NothingRead
import ModalEditor.Proofs.Runs
import ModalEditor.Proofs.VisualSpelling

/-!
# Repeating the last command

Repeating runs the remembered command inside the run of another one; it ends where typing the
remembered command again ends (`Editor.dispatch_repeatLast`, `Session.repeat_eq_retype`).

For this the remembered commands have to be what somebody has typed.  Throughout a run, a remembered
command is an edit, and there are keys that spell it in the mode it is remembered for
(`Editor.Versed`).

In what follows on runs, repeating needs no further thought: a key that completes a command
dispatches one that is not a repetition, or it does nothing worth telling (`Editor.typeKey_split`).
-/

namespace ModalEditor

namespace RepeatSlots

/-- Remembering once more what is remembered changes nothing. -/
theorem record_of_last {s : RepeatSlots} {m : Mode} {c : Command} (h : s.last m = some c) :
    s.record m c = s := by
  unfold record
  split
  · rfl
  · cases m with
    | normal =>
      rw [← show s.normal = some c from h]
    | visual =>
      rw [← show s.visual = some c from h]
    | insert => rfl

end RepeatSlots

namespace Editor

open Command (SpellsIn)

variable {e e' : Editor} {c d : Command} {op : Operator} {keys : List Char}

/-! ### Remembered commands -/

/-- What has been read is the front of a spelling, and the remembered commands are edits that can be
spelled in the mode they are remembered for. -/
structure Versed (e : Editor) : Prop where
  phase : e.phase.Valid e.config
  edits {m : Mode} {c : Command} (h : e.slots.last m = some c) : e.isEdit c = true
  spells {m : Mode} {c : Command} (h : e.slots.last m = some c) : ∃ keys, SpellsIn e.config m keys c

theorem isEdit_congr (h : e'.config = e.config) (c : Command) : e'.isEdit c = e.isEdit c := by
  rw [isEdit, isEdit, h]

/-- Versedness is about the phase, the settings and the remembered commands. -/
theorem Versed.of_eq (h : e.Versed) (hphase : e'.phase.Valid e.config)
    (hconfig : e'.config = e.config) (hslots : e'.slots = e.slots) : e'.Versed := by
  obtain ⟨-, hedit, hspells⟩ := h
  refine ⟨by rwa [hconfig], fun {m c} hc => ?_, fun {m c} hc => ?_⟩
  · rw [hslots] at hc
    rw [isEdit_congr hconfig, hedit hc]
  · rw [hslots] at hc
    rw [hconfig]
    exact hspells hc

/-- A command that is remembered now has been before, or is an edit that is given in this mode. -/
theorem last_prepare {m : Mode} (h : (e.prepare d).slots.last m = some c) :
    e.slots.last m = some c ∨ e.isEdit d = true ∧ m = e.mode ∧ c = d := by
  rw [prepare_eq] at h
  dsimp only at h
  split at h
  · next hd =>
    rw [RepeatSlots.last_record_eq] at h
    split at h
    · next hm => exact .inr ⟨hd, hm.2.1, (Option.some.inj h).symm⟩
    · exact .inl h
  · exact .inl h

theorem Versed.prepare (h : e.Versed) (hd : SpellsIn e.config e.mode keys d) :
    (e.prepare d).Versed := by
  obtain ⟨hphase, hedit, hspells⟩ := h
  refine ⟨by rwa [prepare_eq], fun {m c} hc => ?_, fun {m c} hc => ?_⟩
  · rcases last_prepare hc with hc | ⟨hd, -, rfl⟩
    · rw [isEdit_congr (config_prepare e d), hedit hc]
    · rw [isEdit_congr (config_prepare e c), hd]
  · rw [config_prepare]
    rcases last_prepare hc with hc | ⟨-, rfl, rfl⟩
    · exact hspells hc
    · exact ⟨keys, hd⟩

theorem slots_dispatch (e : Editor) (c : Command) : (e.dispatch c).slots = (e.prepare c).slots := by
  have hrun : Acts true (·.run c) (e.prepare c) :=
    acts_run (fun h => by cases h) (slotsAllow_host _)
  rw [dispatch_eq]
  dsimp only
  split <;> exact hrun.slots

theorem Versed.dispatch (h : e.Versed) (hread : e.NothingRead)
    (hd : SpellsIn e.config e.mode keys d) : (e.dispatch d).Versed := by
  refine (h.prepare hd).of_eq ?_ ?_ (slots_dispatch e d)
  · exact .of_dropPending (nothingRead_dispatch hread d)
  · rw [(settings_dispatch e d).1, config_prepare]

theorem Versed.dropPending (h : e.Versed) : Versed { e with phase := e.phase.dropPending } := by
  refine h.of_eq (.of_dropPending ?_) rfl rfl
  cases e.phase <;> rfl

theorem nothingRead_dropPending (e : Editor) :
    NothingRead { e with phase := e.phase.dropPending } := by
  rw [NothingRead]
  cases e.phase <;> rfl

theorem mode_dropPending (e : Editor) : e.phase.dropPending.mode = e.mode := by
  unfold mode
  cases e.phase <;> rfl

theorem slots_typeInserted (e : Editor) (typed : EscapeReader) (k : Char) :
    (e.typeInserted typed k).slots = e.slots := by
  have htype : Acts true (·.mapBuffer fun b => b.typeText [k]) e := acts_typeText [k]
  have hback := htype.trans (g := takeBack) acts_takeBack
  rw [typeInserted]
  split
  · exact hback.slots
  · exact htype.slots

/-- In insert mode a key is text. -/
theorem exists_typeKey_eq_typeInserted (hm : e.mode = .insert) (k : Char) :
    ∃ typed, e.typeKey k = e.typeInserted typed k := by
  obtain ⟨typed, hp⟩ := Phase.exists_insert hm
  exact ⟨typed, by simp only [typeKey, hp]⟩

theorem phase_typeInserted (e : Editor) (typed : EscapeReader) (k : Char) :
    (e.typeInserted typed k).phase = .normal .initial ∨
      ∃ typed', (e.typeInserted typed k).phase = .insert typed' := by
  rw [typeInserted]
  split
  · exact .inl (phase_resumeNormal _)
  · exact .inr ⟨_, rfl⟩

theorem Versed.typeKey (h : e.Versed) (k : Char) : (e.typeKey k).Versed := by
  by_cases hm : e.mode = .insert
  · obtain ⟨typed, htype⟩ := exists_typeKey_eq_typeInserted hm k
    rw [htype]
    refine h.of_eq ?_ (settings_typeInserted e typed k).1 (slots_typeInserted e typed k)
    rcases phase_typeInserted e typed k with hphase | ⟨typed', hphase⟩
    · rw [hphase]
      exact .inl rfl
    · rw [hphase]
      trivial
  · rcases typeKey_cases h.phase hm k with ⟨p, -, hp, heq⟩ | ⟨keys, d, hd, heq⟩
    · rw [heq]
      exact h.of_eq hp rfl rfl
    · rw [heq]
      have hmode : mode { e with phase := e.phase.dropPending } = e.mode := mode_dropPending e
      rw [← hmode] at hd
      exact h.dropPending.dispatch (nothingRead_dropPending e) hd

theorem Versed.step (h : e.Versed) (hstep : e.Step e') : e'.Versed := by
  have hresume (x : Editor) : x.resumeNormal.phase.Valid e.config := by
    rw [phase_resumeNormal]
    exact .inl rfl
  have hsettings (x : Editor) :
      x.resumeNormal.config = x.config ∧ x.resumeNormal.slots = x.slots :=
    have hacts : Acts true resumeNormal x := acts_resumeNormal
    ⟨hacts.config, hacts.slots⟩
  cases hstep with
  | key _ k => exact h.typeKey k
  | text | backspace | aside => exact h.of_eq h.phase rfl rfl
  | forceNormal => exact h.of_eq (hresume e) (hsettings e).1 (hsettings e).2
  | toggle message =>
    have htoggle : e.toggleEnabled.Versed := by
      rw [toggleEnabled]
      split
      · exact h.of_eq (hresume _) (hsettings _).1 (hsettings _).2
      · exact h.of_eq h.dropPending.phase rfl rfl
    exact htoggle.of_eq htoggle.phase rfl rfl

/-! ### Repeating -/

/-- The operator that repeats the last command. -/
def repeatOperator : Operator := ⟨.standIn, .standIn, .repeatLast⟩

theorem eq_repeatOperator {k : Char} (hop : e.config.operator? k = some op)
    (h : op.action = .repeatLast) : op = repeatOperator := by
  obtain ⟨hkind, harity, -⟩ := Config.operator?_kind hop
  obtain ⟨arity, kind, action⟩ := op
  obtain rfl : action = .repeatLast := h
  obtain rfl : arity = .standIn := harity.2 rfl
  obtain rfl : kind = .standIn := hkind
  rfl

theorem exists_operator_of_isEdit (h : e.isEdit c = true) :
    ∃ op, e.config.operator? c.operator = some op := by
  unfold isEdit at h
  split at h
  · next op hop => exact ⟨op, hop⟩
  · cases h

/-- No edit is a repetition. -/
theorem action_ne_of_isEdit (h : e.isEdit c = true)
    (hop : e.config.operator? c.operator = some op) : op.action ≠ .repeatLast := by
  intro hrepeat
  obtain rfl := eq_repeatOperator hop hrepeat
  simp [isEdit, hop, repeatOperator] at h

/-- Running a repetition is repeating, whatever the count. -/
theorem run_repeatLast (hop : e.config.operator? d.operator = some repeatOperator)
    (hd : d.isVirtual = true) : e.run d = e.replayLast := by
  have hplan : e.plan? d =
      some ⟨repeatOperator, 1, .ofSpan (.point e.buffer.cursor), d.argument⟩ := by
    simp [plan?, hop, hd]
  rw [run, runWith, hplan]
  exact repeatPlan_one rfl

theorem slots_prepare_of_last (hslot : e.slots.last e.mode = some c) :
    (e.prepare c).slots = e.slots := by
  rw [prepare_eq]
  dsimp only
  split
  · exact RepeatSlots.record_of_last hslot
  · rfl

/-- **Repeating is giving the remembered command again.** -/
theorem dispatch_repeatLast (hop : e.config.operator? d.operator = some repeatOperator)
    (hd : d.isVirtual = true) (hslot : e.slots.last e.mode = some c) (hc : e.isEdit c = true) :
    e.dispatch d = e.dispatch c := by
  -- Both find the same editor: the command is remembered already.
  have hprepare : e.prepare d = e.prepare c := by
    have hnot : e.isEdit d = false := by simp [isEdit, hop, repeatOperator]
    have hslots := slots_prepare_of_last hslot
    rw [prepare_eq] at hslots ⊢
    rw [prepare_eq, hnot]
    dsimp only at hslots
    rw [hslots]
    rfl
  obtain ⟨op, hcop⟩ := exists_operator_of_isEdit hc
  have haction := action_ne_of_isEdit hc hcop
  have hrun : (e.prepare c).run d = (e.prepare c).run c := by
    have hslots : (e.prepare c).slots.last (e.prepare c).mode = some c := by
      rw [slots_prepare_of_last hslot, prepare_eq]
      exact hslot
    have hcop' : (e.prepare c).config.operator? c.operator = some op := by rwa [config_prepare]
    rw [run_repeatLast (by rwa [config_prepare]) hd, replayLast, hslots, run]
    exact (runWith_congr hcop' haction).symm
  rw [dispatch_eq, dispatch_eq, hprepare, hrun]

/-- With nothing to repeat, an undo group begins and ends and that is all. -/
theorem dispatch_repeatLast_none (hop : e.config.operator? d.operator = some repeatOperator)
    (hd : d.isVirtual = true) (hm : e.mode ≠ .insert) (hslot : e.slots.last e.mode = none) :
    e.dispatch d = (e.prepare d).mapBuffer Buffer.endUndoGroup := by
  have hslots : (e.prepare d).slots.last (e.prepare d).mode = none := by
    have hnot : e.isEdit d = false := by simp [isEdit, hop, repeatOperator]
    rw [prepare_eq, hnot]
    exact hslot
  have hrun : (e.prepare d).run d = e.prepare d := by
    rw [run_repeatLast (by rwa [config_prepare]) hd, replayLast, hslots]
  have hmode : (e.prepare d).mode ≠ .insert := by rwa [mode_prepare]
  rw [dispatch_eq, hrun]
  exact if_neg hmode

/-- **Dispatching a repetition** is dispatching a command that is none, or there is nothing to
repeat. -/
theorem Versed.dispatch_cases (h : e.Versed) (hm : e.mode ≠ .insert)
    (hd : SpellsIn e.config e.mode keys d) :
    (∃ c op, e.config.operator? c.operator = some op ∧ op.action ≠ .repeatLast ∧
      e.dispatch d = e.dispatch c) ∨
    e.dispatch d = (e.prepare d).mapBuffer Buffer.endUndoGroup := by
  obtain ⟨op, hop, hvirtual⟩ := hd.exists_operator
  by_cases haction : op.action = .repeatLast
  · obtain rfl := eq_repeatOperator hop haction
    have hd : d.isVirtual = true := hvirtual.2 rfl
    cases hslot : e.slots.last e.mode with
    | none => exact .inr (dispatch_repeatLast_none hop hd hm hslot)
    | some c =>
      obtain ⟨keys, hspells⟩ := h.spells hslot
      obtain ⟨op, hcop, -⟩ := hspells.exists_operator
      have hedit := h.edits hslot
      have hc := action_ne_of_isEdit hedit hcop
      exact .inl ⟨c, op, hcop, hc, dispatch_repeatLast hop hd hslot hedit⟩
  · exact .inl ⟨d, op, hop, haction, rfl⟩

/-- **Keys dispatch commands that are no repetitions.**  Outside insert mode, all other keys leave
the document and the mode alone. -/
theorem Versed.typeKey_split (h : e.Versed) (hm : e.mode ≠ .insert) (k : Char) :
    ((e.typeKey k).buffer.document = e.buffer.document ∧
      (e.typeKey k).phase.dropPending = e.phase.dropPending) ∨
    ∃ d op, e.config.operator? d.operator = some op ∧ op.action ≠ .repeatLast ∧
      e.typeKey k = { e with phase := e.phase.dropPending }.dispatch d := by
  rcases typeKey_cases h.phase hm k with ⟨p, hp, -, heq⟩ | ⟨keys, d, hd, heq⟩
  · rw [heq]
    exact .inl ⟨rfl, hp⟩
  let x : Editor := { e with phase := e.phase.dropPending }
  have hmode : x.mode = e.mode := mode_dropPending e
  rw [← hmode] at hm hd
  rcases h.dropPending.dispatch_cases hm hd with ⟨c, op, hop, haction, hsame⟩ | hnothing
  · exact .inr ⟨c, op, hop, haction, by rw [heq, hsame]⟩
  · rw [heq, hnothing, prepare_eq]
    exact .inl ⟨rfl, nothingRead_dropPending e⟩

end Editor

namespace Session

open Command (SpellsIn)

variable {s : Session} {past : List Session} {c : Command}

theorem Run.versed (h : Run (s :: past)) : s.Versed := by
  refine h.invariant (I := fun s => s.Versed) ?_ ?_
  · intro text limit config files clipboard path
    have hnone (m : Mode) :
        (Session.start text limit config files clipboard path).slots.last m = none := by
      cases m <;> rfl
    refine ⟨.inl rfl, ?_, ?_⟩
    · intro m c hc
      rw [hnone] at hc
      cases hc
    · intro m c hc
      rw [hnone] at hc
      cases hc
  · intro x y before _ hx hnext
    exact hx.step hnext.step

/-- **Repeating is retyping.**  When a command is remembered for the mode and no keys are pending,
the key that repeats, with any count before it, leads to the same editor as the keys that spell the
remembered command; and there are such keys. -/
theorem repeat_eq_retype (h : Run (s :: past)) (henabled : s.enabled = true)
    (hpending : s.hasPending = false) (hfree : s.config.hostCommands? '.' = none)
    (hslot : s.slots.last s.mode = some c) :
    (∃ keys, SpellsIn s.config s.mode keys c) ∧
      ∀ ds : Digits, ds.IsCount → ∀ keys, SpellsIn s.config s.mode keys c →
        s.typeKeys (ds ++ ['.']) = s.typeKeys keys := by
  refine ⟨h.versed.spells hslot, ?_⟩
  intro ds hds keys hkeys
  have hm : s.mode ≠ .insert := by
    intro hm
    rw [hm] at hslot
    cases hslot
  have hphase : s.phase.dropPending = s.phase :=
    Phase.dropPending_of_pending (by simpa [Editor.hasPending] using hpending) hm
  -- The key that repeats is a command in either mode, and its count does not matter.
  have hop : s.config.operator? '.' = some Editor.repeatOperator := by
    rw [Config.operator?, hfree]
    rfl
  have hopens : Command.Opens s.config .standIn ds '.' :=
    ⟨hds, .of_isDigit rfl, by rw [hop]; rfl⟩
  have hdot : SpellsIn s.config s.mode (ds ++ ['.'])
      { operator := '.', count := ds.amount, isVirtual := true } := by
    cases hmode : s.mode with
    | normal => exact .standIn hopens
    | visual => exact .standIn hopens
    | insert => exact absurd hmode hm
  rw [Editor.typeKeys, if_pos henabled, Editor.typeKeys, if_pos henabled,
    Editor.foldl_typeKey_of_spellsIn hphase hdot, Editor.foldl_typeKey_of_spellsIn hphase hkeys]
  exact Editor.dispatch_repeatLast hop rfl hslot (h.versed.edits hslot)

/-- A deleted line and the cursor moved: the counted repetition deletes the other line. -/
theorem repeat_eq_retype_line :
    let s := (((start ['a', '\n', 'b', '\n', 'c'] 5 {} {} (.memory none) none).operate
      (.typeKeys ['d'])).operate (.typeKeys ['d'])).operate (.typeKeys ['j'])
    s.typeKeys ['3', '.'] = s.typeKeys ['d', 'd'] ∧
      (s.typeKeys ['3', '.']).buffer.text = ['b'] := by
  intro s
  have hrun : Run [s, _, _, _] := (((Run.start ..).next (.key 'd')).next (.key 'd')).next (.key 'j')
  have hslot : s.slots.last s.mode = some { operator := 'd', motion := some 'd' } := by
    decide +kernel
  have hmode : s.mode = .normal := by decide +kernel
  have hopens : Command.Opens s.config .range [] 'd' :=
    Command.opens_range (o := ⟨.range, .edit, .delete⟩) (by decide +kernel) rfl
  have hspells : SpellsIn s.config s.mode ['d', 'd'] { operator := 'd', motion := some 'd' } := by
    rw [hmode]
    exact .wholeLine hopens (.inl rfl)
  have hdigit : Digits.IsCount ['3'] := .inr (.digit rfl (by decide))
  have hsame := (repeat_eq_retype hrun (by decide +kernel) (by decide +kernel) (by decide +kernel)
    hslot).2 ['3'] hdigit ['d', 'd'] hspells
  exact ⟨hsame, by decide +kernel⟩

end Session

end ModalEditor
