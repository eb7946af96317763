import ModalEditor.Proofs.Counted
import ModalEditor.Proofs.Repetition

/-!
# Commands that are read can be planned

Reading a command and planning it look at the same tables, each in its own way: the reader decides
from them which keys a command needs, and the planner looks up the entries again and asks for what
they need.  The two agree.  A command that a reader completes has what its entries ask for and
nothing else (`Command.Fits`, `Command.Emitted.fits`), and then there is a plan for it in every
editor with these settings in that mode (`Editor.exists_plan`).

Running a command leaves the settings alone.  So the plan is there again before every further run,
as long as the mode stays, and it is there when the command is remembered and repeated.
-/

namespace ModalEditor

/-! ### Resolving motions -/

namespace MotionKey

variable {m : MotionKey} (ls : Lines) (separators : List Char) {argument : Option Char}

/-- A motion that has the argument it needs covers some stretch. -/
theorem exists_span? (h : m.takesArgument = true → argument.isSome = true) (p : Position) :
    ∃ s, m.span? ls separators p argument = some s := by
  cases m with
  | plain m => exact ⟨_, rfl⟩
  | search s =>
    obtain ⟨c, rfl⟩ := Option.isSome_iff_exists.1 (h rfl)
    exact ⟨_, rfl⟩
  | inner =>
    obtain ⟨c, rfl⟩ := Option.isSome_iff_exists.1 (h rfl)
    exact ⟨_, rfl⟩

theorem exists_reachFrom (h : m.takesArgument = true → argument.isSome = true) (n : Nat)
    (p : Position) (step covered : Span) :
    ∃ s, m.reachFrom ls separators argument n p step covered = some s := by
  induction n generalizing p step covered with
  | zero => exact ⟨covered, rfl⟩
  | succ n ih =>
    rw [reachFrom]
    split
    · exact ⟨covered, rfl⟩
    · obtain ⟨next, hnext⟩ := exists_span? ls separators h (step.farEnd p)
      rw [hnext]
      exact ih _ _ _

theorem exists_reach? (h : m.takesArgument = true → argument.isSome = true) (count : Nat)
    (p : Position) : ∃ s, m.reach? ls separators argument count p = some s := by
  obtain ⟨first, hfirst⟩ := exists_span? ls separators h p
  rw [reach?, hfirst]
  exact exists_reachFrom ls separators h _ p first first

end MotionKey

/-! ### Emitted commands -/

namespace VisualReader

variable {config : Config}

/-- The reader after a run of keys that begins with nothing read. -/
def feed (config : Config) (keys : List Char) : VisualReader :=
  keys.foldl (fun r c => (r.read config c).1) initial

/-- Whatever the keys, what has been read is the front of a spelling. -/
theorem valid_feed (config : Config) (keys : List Char) : (feed config keys).Valid config := by
  induction keys using List.reverseRecOn with
  | nil => exact .inl rfl
  | append_singleton keys c ih =>
    have hstep := step_read ih c
    rw [feed, List.foldl_append]
    show (((feed config keys).read config c).1).Valid config
    generalize (feed config keys).read config c = result at hstep
    cases hstep with
    | skip => exact ih
    | take _ hvalid => exact hvalid
    | complete => exact .inl rfl

end VisualReader

namespace Command

variable {config : Config} {m : Mode} {keys : List Char} {d : Command} {op : Operator}

/-- After some run of keys, the reader of mode `m` completes the command with a key; insert mode has
no commands. -/
def Emitted (config : Config) : Mode → Command → Prop
  | .normal, d => ∃ keys c, ((Reading.ofKeys config keys).reader.read config c).2 = some d
  | .visual, d => ∃ keys c, ((VisualReader.feed config keys).read config c).2 = some d
  | .insert, _ => False

theorem Emitted.exists_spells (h : Emitted config m d) : ∃ keys, SpellsIn config m keys d := by
  cases m with
  | normal =>
    obtain ⟨keys, c, hd⟩ := h
    exact ⟨_, (Reading.sound_ofKeys config keys).spells hd⟩
  | visual =>
    obtain ⟨keys, c, hd⟩ := h
    have hstep := VisualReader.step_read (VisualReader.valid_feed config keys) c
    generalize (VisualReader.feed config keys).read config c = result at hstep hd
    cases hstep with
    | skip | take => cases hd
    | complete hspells =>
      cases hd
      exact ⟨_, hspells⟩
  | insert => cases h

/-- The motion of the command stands in the table, and takes an argument. -/
def HasArgumentMotion (d : Command) : Prop :=
  ∃ k m, d.motion = some k ∧ MotionKey.ofChar? k = some m ∧ m.takesArgument = true

/-- The command is what its entries in the tables ask for: a motion for an operator with a range,
unless the selection stands for it, and an argument for an operator or a motion that takes one. -/
structure Fits (config : Config) (m : Mode) (d : Command) (op : Operator) : Prop where
  operator : config.operator? d.operator = some op
  motion : d.motion.isSome = true ↔ m = .normal ∧ op.arity = .range
  argument : d.argument.isSome = true ↔ op.arity = .argument ∨ d.HasArgumentMotion
  entry {k : Char} (h : d.motion = some k) : k = d.operator ∨ ∃ m, MotionKey.ofChar? k = some m

theorem not_hasArgumentMotion_of_none (h : d.motion = none) : ¬d.HasArgumentMotion := by
  rintro ⟨k, m, hk, -⟩
  rw [h] at hk
  cases hk

theorem hasArgumentMotion_iff {k : Char} {mk : MotionKey} (hmotion : d.motion = some k)
    (hk : MotionKey.ofChar? k = some mk) : d.HasArgumentMotion ↔ mk.takesArgument = true := by
  constructor
  · rintro ⟨k', mk', hmotion', hk', htakes⟩
    rw [hmotion] at hmotion'
    cases hmotion'
    rw [hk] at hk'
    cases hk'
    exact htakes
  · exact fun htakes => ⟨k, mk, hmotion, hk, htakes⟩

/-- A command without a motion fits if there is an argument just when the operator takes one. -/
theorem fits_of_motion_none (hop : config.operator? d.operator = some op)
    (hmotion : d.motion = none) (hrange : op.arity = .range → m ≠ .normal)
    (hargument : d.argument.isSome = true ↔ op.arity = .argument) : Fits config m d op where
  operator := hop
  motion := by
    have hnot : ¬(m = .normal ∧ op.arity = .range) := fun h => hrange h.2 h.1
    simp [hmotion, hnot]
  argument := by simp [hargument, not_hasArgumentMotion_of_none hmotion]
  entry h := by
    rw [hmotion] at h
    cases h

/-- A command with a motion from the table fits if there is an argument just when the motion takes
one. -/
theorem fits_of_ofChar? {k : Char} {mk : MotionKey} (hop : config.operator? d.operator = some op)
    (harity : op.arity = .range) (hmotion : d.motion = some k)
    (hk : MotionKey.ofChar? k = some mk)
    (hargument : d.argument.isSome = mk.takesArgument) : Fits config .normal d op where
  operator := hop
  motion := by simp [hmotion, harity]
  argument := by simp [hargument, harity, hasArgumentMotion_iff hmotion hk]
  entry h := by
    rw [hmotion] at h
    cases h
    exact .inr ⟨mk, hk⟩

/-- The operator is no motion, so as its own motion it takes no argument. -/
theorem fits_wholeLine {ds : Digits} (hopens : Opens config .range ds d.operator)
    (hop : config.operator? d.operator = some op) (harity : op.arity = .range)
    (hmotion : d.motion = some d.operator) (hargument : d.argument = none) :
    Fits config .normal d op where
  operator := hop
  motion := by simp [hmotion, harity]
  argument := by
    have hnone : ¬d.HasArgumentMotion := by
      rintro ⟨k, mk, hk, hmk, -⟩
      rw [hmotion] at hk
      cases hk
      exact hopens.ne_of_ofChar? hmk rfl
    simp [hargument, harity, hnone]
  entry h := by
    rw [hmotion] at h
    cases h
    exact .inl rfl

/-- **Spelled commands fit their entries.** -/
theorem SpellsIn.fits (h : SpellsIn config m keys d) : ∃ op, Fits config m d op := by
  cases m with
  | normal =>
    cases h with
    | alone h | standIn h =>
      obtain ⟨op, hop, harity⟩ := h.exists_operator
      exact ⟨op, fits_of_motion_none hop rfl (by simp [harity]) (by simp [harity])⟩
    | argument h c =>
      obtain ⟨op, hop, harity⟩ := h.exists_operator
      exact ⟨op, fits_of_motion_none hop rfl (by simp [harity]) (by simp [harity])⟩
    | wholeLine h hes =>
      obtain ⟨op, hop, harity⟩ := h.exists_operator
      exact ⟨op, fits_wholeLine h hop harity rfl rfl⟩
    | motion h hes hk hm =>
      obtain ⟨op, hop, harity⟩ := h.exists_operator
      exact ⟨op, fits_of_ofChar? hop harity rfl hk hm.symm⟩
    | motionArgument h hes hk hm c =>
      obtain ⟨op, hop, harity⟩ := h.exists_operator
      exact ⟨op, fits_of_ofChar? hop harity rfl hk hm.symm⟩
  | visual =>
    cases h with
    | alone h | range h | standIn h =>
      obtain ⟨op, hop, harity⟩ := h.exists_operator
      exact ⟨op, fits_of_motion_none hop rfl (by simp) (by simp [harity])⟩
    | argument h c =>
      obtain ⟨op, hop, harity⟩ := h.exists_operator
      exact ⟨op, fits_of_motion_none hop rfl (by simp) (by simp [harity])⟩
  | insert => cases h

theorem Emitted.fits (h : Emitted config m d) : ∃ op, Fits config m d op := by
  obtain ⟨keys, hspells⟩ := h.exists_spells
  exact hspells.fits

end Command

/-! ### Planning -/

namespace Editor

open Command (Fits Emitted SpellsIn)

variable {e : Editor} {config : Config} {m : Mode} {d : Command} {op : Operator}

theorem exists_target (h : Fits e.config e.mode d op) (harity : op.arity = .range) :
    ∃ t, e.target? d = some t := by
  unfold target?
  cases hphase : e.phase with
  | visual anchor lineWise reading => exact ⟨_, rfl⟩
  | insert typed =>
    have hmode : e.mode = .insert := congrArg Phase.mode hphase
    have hnone : d.motion = none := by
      rw [← Option.not_isSome_iff_eq_none, h.motion, hmode]
      simp
    rw [hnone]
    exact ⟨_, rfl⟩
  | normal reading =>
    have hmode : e.mode = .normal := congrArg Phase.mode hphase
    obtain ⟨k, hk⟩ := Option.isSome_iff_exists.1 (h.motion.2 ⟨hmode, harity⟩)
    rw [hk]
    dsimp only
    by_cases hwhole : d.isWholeLine = true
    · rw [if_pos hwhole]
      exact ⟨_, rfl⟩
    · rw [if_neg hwhole]
      have hne : k ≠ d.operator := by
        rintro rfl
        exact hwhole (by simp [Command.isWholeLine, hk])
      obtain ⟨mk, hmk⟩ := (h.entry hk).resolve_left hne
      rw [hmk]
      have hargument : mk.takesArgument = true → d.argument.isSome = true :=
        fun htakes => h.argument.2 (.inr ⟨k, mk, hk, hmk, htakes⟩)
      obtain ⟨s, hs⟩ := MotionKey.exists_reach? e.lines e.separators hargument
        (max d.motionCount 1) e.buffer.cursor
      dsimp only
      rw [hs]
      exact ⟨.ofSpan s, rfl⟩

/-- **There is a plan for a command that fits its entries.** -/
theorem exists_plan (h : Fits e.config e.mode d op) : ∃ p, e.plan? d = some p := by
  rw [plan?, h.operator]
  dsimp only
  by_cases hvirtual : d.isVirtual = true
  · rw [if_pos hvirtual]
    exact ⟨_, rfl⟩
  · rw [if_neg hvirtual]
    cases harity : op.arity with
    | alone | argument | standIn => exact ⟨_, rfl⟩
    | range =>
      obtain ⟨t, ht⟩ := exists_target h harity
      rw [ht]
      exact ⟨_, rfl⟩

/-- **Emitted commands can be planned.**  Whatever keys have been read, a command that the reader of
a mode completes has a plan in every editor with the same settings in that mode, and has one again
after any number of its runs, if the mode is still the same.  It has a motion just when the operator
takes a range and the mode is normal mode, and an argument just when the operator or the motion
takes one. -/
theorem plan?_isSome_of_emitted (h : Emitted config m d) :
    (∀ e : Editor, e.config = config → e.mode = m → (e.plan? d).isSome = true ∧
      ∀ k, ((once d)^[k] e).mode = m → (((once d)^[k] e).plan? d).isSome = true) ∧
    ∃ op, config.operator? d.operator = some op ∧
      (d.motion.isSome = true ↔ m = .normal ∧ op.arity = .range) ∧
      (d.argument.isSome = true ↔ op.arity = .argument ∨
        ∃ k motion, d.motion = some k ∧ MotionKey.ofChar? k = some motion ∧
          motion.takesArgument = true) := by
  obtain ⟨op, hfits⟩ := h.fits
  have hplan (x : Editor) (hconfig : x.config = config) (hmode : x.mode = m) :
      (x.plan? d).isSome = true := by
    subst hconfig hmode
    exact Option.isSome_iff_exists.2 (exists_plan hfits)
  refine ⟨fun e hconfig hmode => ⟨hplan e hconfig hmode, fun k hk => ?_⟩,
    op, hfits.operator, hfits.motion, hfits.argument⟩
  exact hplan _ ((config_iterate (config_once d) k e).trans hconfig) hk

/-- Deleting up to the second next `x`: after one run too few are left, and still there is a
plan. -/
theorem plan?_isSome_of_emitted_search :
    let e : Editor := { buffer := .ofText ['a', 'x', 'b', 'x', 'c', 'x'] }
    let d : Command :=
      { operator := 'd', motion := some 'f', motionCount := 2, argument := some 'x' }
    ((Reading.ofKeys {} ['d', '2', 'f']).reader.read {} 'x').2 = some d ∧
      (e.plan? d).isSome = true ∧ (once d e).buffer.text = ['x', 'c', 'x'] ∧
      ((once d e).plan? d).isSome = true := by
  intro e d
  have hread : ((Reading.ofKeys {} ['d', '2', 'f']).reader.read {} 'x').2 = some d := by
    decide +kernel
  have hemitted : Emitted {} .normal d := ⟨_, _, hread⟩
  have htext : (once d e).buffer.text = ['x', 'c', 'x'] := by decide +kernel
  have hmode : ((once d)^[1] e).mode = .normal := by decide +kernel
  obtain ⟨hfirst, hlater⟩ := (plan?_isSome_of_emitted hemitted).1 e rfl rfl
  exact ⟨hread, hfirst, htext, hlater 1 hmode⟩

end Editor

namespace Session

variable {s : Session} {past : List Session} {m : Mode} {c : Command}

/-- What is remembered for a mode can be planned in that mode. -/
theorem Run.plan?_isSome_of_last (h : Run (s :: past)) (hslot : s.slots.last m = some c)
    {e : Editor} (hconfig : e.config = s.config) (hmode : e.mode = m) :
    (e.plan? c).isSome = true := by
  subst hmode
  obtain ⟨keys, hspells⟩ := h.versed.spells hslot
  rw [← hconfig] at hspells
  obtain ⟨op, hfits⟩ := hspells.fits
  exact Option.isSome_iff_exists.2 (Editor.exists_plan hfits)

end Session

end ModalEditor
