import ModalEditor.Proofs.NothingRead
import ModalEditor.Proofs.Outward
import ModalEditor.Proofs.VisualSpelling

/-!
# Counted commands

A command with a count is the command typed as often as the count says
(`Session.counted_eq_repeated`).

Both plan and run the operator again and again.  The count does so within one dispatch, which stops
as soon as the mode changes; typing dispatches each time, which sets the undo history, the
remembered commands and the message.  The two are compared through a part of the editor that decides
what the runs do and that dispatching leaves alone (`Editor.Decides`): what is seen from outside, or
for host commands all but the grouping of changes.
-/

namespace ModalEditor

namespace Editor

open Command (SpellsIn)

variable {S : Editor → Editor} {config : Config}
variable {e x y : Editor} {c : Command} {op : Operator} {p : Plan} {n : Nat} {keys : List Char}

theorem config_iterate {f : Editor → Editor} (hf : ∀ x, (f x).config = x.config) (k : Nat)
    (e : Editor) : (f^[k] e).config = e.config := by
  induction k generalizing e with
  | zero => rfl
  | succ k ih => exact (ih (f e)).trans (hf e)

/-! ### Running once -/

/-- Plan a command and run it once, if there is a plan. -/
def attempt (e : Editor) (c : Command) : Editor × Option HostError :=
  match e.plan? c with
  | none => (e, none)
  | some p => runPlan replayLast p e

/-- The editor after one run of a command. -/
def once (c : Command) (e : Editor) : Editor := (e.attempt c).1

theorem attempt_of_some (hp : e.plan? c = some p) : e.attempt c = runPlan replayLast p e := by
  rw [attempt, hp]

theorem attempt_of_none (hp : e.plan? c = none) : e.attempt c = (e, none) := by
  rw [attempt, hp]

theorem config_once (c : Command) (e : Editor) : (once c e).config = e.config := by
  cases hp : e.plan? c with
  | none => rw [once, attempt_of_none hp]
  | some p =>
    rw [once, attempt_of_some hp]
    exact (acts_runPlan p).config

/-- Commands that differ by their counts have plans that differ by their counts. -/
theorem plan?_with_count (hop : e.config.operator? c.operator = some op)
    (hc : c.isVirtual = false) (n : Nat) :
    e.plan? { c with count := n } = (e.plan? c).map fun p =>
      { p with count := if op.arity = .range ∧ e.mode = .visual then 1 else max n 1 } := by
  have htarget : e.target? { c with count := n } = e.target? c := rfl
  rw [plan?, plan?, htarget, hop]
  dsimp only
  rw [hc]
  cases harity : op.arity <;> simp [Function.comp_def]

/-- One run does not look at the count. -/
theorem attempt_with_count (hop : e.config.operator? c.operator = some op)
    (hc : c.isVirtual = false) (n : Nat) : e.attempt { c with count := n } = e.attempt c := by
  have hplan := plan?_with_count hop hc n
  cases hp : e.plan? c with
  | none =>
    rw [hp] at hplan
    rw [attempt_of_none hplan, attempt_of_none hp]
  | some p =>
    rw [hp] at hplan
    rw [attempt_of_some hplan, attempt_of_some hp]
    rfl

theorem count_eq_one (hop : e.config.operator? c.operator = some op) (hc : c.isVirtual = false)
    (hcount : c.count = 1) (hp : e.plan? c = some p) : p.count = 1 := by
  have hplan := plan?_with_count hop hc 1
  rw [← hcount, show { c with count := c.count } = c from rfl, hp] at hplan
  have hfixed := congrArg Plan.count (Option.some.inj hplan)
  rw [hfixed]
  dsimp only
  rw [hcount, Nat.max_self, ite_self]

/-- Without a count a command runs once, and tells if it fails. -/
theorem run_eq_attempt (hop : e.config.operator? c.operator = some op) (hc : c.isVirtual = false)
    (hcount : c.count = 1) : e.run c =
      match e.attempt c with
      | (x, none) => x
      | (x, some cause) => x.report cause := by
  rw [run, runWith]
  cases hp : e.plan? c with
  | none => rw [attempt_of_none hp]
  | some p =>
    dsimp only
    rw [count_eq_one hop hc hcount hp, attempt_of_some hp]
    rcases hrun : runPlan replayLast p e with ⟨x, _ | cause⟩
    · rw [repeatPlan_one (by rw [hrun]), hrun]
    · rw [repeatPlan, hrun]

/-! ### Running again and again -/

/-- A count runs a command so many times, if nothing stops it. -/
theorem repeatPlan_eq_iterate {start : Mode} (hp : e.plan? c = some p)
    (hmode : ∀ k, 0 < k → k < n → ((once c)^[k] e).mode = start)
    (hdone : ∀ k < n, (((once c)^[k] e).attempt c).2 = none) :
    repeatPlan replayLast c start n p e = (once c)^[n] e := by
  induction n generalizing e p with
  | zero => rfl
  | succ n ih =>
    have hfirst : (e.attempt c).2 = none := hdone 0 (Nat.succ_pos n)
    have honce : e.attempt c = (once c e, none) := Prod.ext rfl hfirst
    rw [attempt_of_some hp] at honce
    rw [Function.iterate_succ_apply]
    cases n with
    | zero => rw [repeatPlan_one (by rw [honce]), honce, Function.iterate_zero_apply]
    | succ n =>
      have hstart : (once c e).mode = start := hmode 1 Nat.one_pos (by omega)
      rw [repeatPlan, honce]
      dsimp only
      rw [if_pos hstart]
      split
      · next q hq =>
        refine ih hq ?_ ?_
        · intro k hk hkn
          exact hmode (k + 1) (Nat.succ_pos k) (by omega)
        · intro k hk
          exact hdone (k + 1) (by omega)
      · next hq =>
        -- Without a plan there is nothing more to run.
        have hfixed : once c (once c e) = once c e := by rw [once, attempt_of_none hq]
        exact (Function.iterate_fixed hfixed _).symm

theorem iterate_once_with_count (hop : e.config.operator? c.operator = some op)
    (hc : c.isVirtual = false) (m k : Nat) :
    (once { c with count := m })^[k] e = (once c)^[k] e := by
  induction k generalizing e with
  | zero => rfl
  | succ k ih =>
    have hfirst : once { c with count := m } e = once c e :=
      congrArg Prod.fst (attempt_with_count hop hc m)
    rw [Function.iterate_succ_apply, Function.iterate_succ_apply, hfirst]
    exact ih (by rwa [config_once])

/-- An operator with a range leaves visual mode. -/
theorem mode_once_ne_visual (hop : e.config.operator? c.operator = some op)
    (harity : op.arity = .range) (hp : e.plan? c = some p) : (once c e).mode ≠ .visual := by
  have hoperator := operator_of_plan? hp
  rw [hop] at hoperator
  have hkind : p.operator.kind = .edit := by
    rw [← Option.some.inj hoperator]
    exact (Config.operator?_kind hop).2.2 harity
  rw [once, attempt_of_some hp, runPlan]
  dsimp only
  rw [hkind]
  by_cases hm : (Action.run replayLast p e).1.mode = .visual
  · rw [if_pos ⟨rfl, hm⟩, mode_resumeNormal]
    decide
  · rw [if_neg (fun h => hm h.2)]
    exact hm

/-- **A count runs a command so many times**, if the mode stays and no run fails. -/
theorem run_with_count (hop : e.config.operator? c.operator = some op) (hc : c.isVirtual = false)
    (hn : 0 < n) (hmode : ∀ k, 0 < k → k < n → ((once c)^[k] e).mode = e.mode)
    (hdone : ∀ k < n, (((once c)^[k] e).attempt c).2 = none) :
    e.run { c with count := n } = (once c)^[n] e := by
  have hplan := plan?_with_count hop hc n
  rw [run, runWith]
  cases hp : e.plan? c with
  | none =>
    rw [hp] at hplan
    rw [hplan]
    have hfixed : once c e = e := by rw [once, attempt_of_none hp]
    exact (Function.iterate_fixed hfixed n).symm
  | some p =>
    have hcount : (if op.arity = .range ∧ e.mode = .visual then 1 else max n 1) = n := by
      split
      · next h =>
        -- A second run would not find the selection.
        by_contra hne
        have hstays := hmode 1 Nat.one_pos (by omega)
        rw [h.2] at hstays
        exact mode_once_ne_visual hop h.1 hp hstays
      · exact Nat.max_eq_left hn
    rw [hp, hcount] at hplan
    rw [hplan, ← iterate_once_with_count hop hc n n]
    refine repeatPlan_eq_iterate hplan ?_ ?_
    · intro k hk hkn
      rw [iterate_once_with_count hop hc]
      exact hmode k hk hkn
    · intro k hkn
      have hconfig : ((once c)^[k] e).config = e.config := config_iterate (config_once c) k e
      rw [iterate_once_with_count hop hc, attempt_with_count (by rwa [hconfig]) hc]
      exact hdone k hkn

/-! ### Running and dispatching -/

/-- What `S` keeps of an editor decides what a run of `c` does, and dispatching a command does
nothing else to it. -/
structure Decides (S : Editor → Editor) (config : Config) (c : Command) : Prop where
  outward {x y : Editor} (h : S x = S y) : x.outward = y.outward
  attempt {x y : Editor} (hx : x.config = config) (h : S x = S y) :
    S (x.attempt c).1 = S (y.attempt c).1 ∧ (x.attempt c).2 = (y.attempt c).2
  prepare (x : Editor) (d : Command) : S (x.prepare d) = S x
  report (x : Editor) (cause : HostError) : S (x.report cause) = S x
  endGroup (x : Editor) : S (x.mapBuffer Buffer.endUndoGroup) = S x

theorem decides_outward (hop : config.operator? c.operator = some op)
    (hrepeat : op.action ≠ .repeatLast) (hhost : ∀ names, op.action ≠ .hostCommands names) :
    Decides Editor.outward config c where
  outward h := h
  attempt {x y} hx h := by
    have hplan := plan?_of_outward h c
    cases hp : x.plan? c with
    | none =>
      rw [attempt_of_none hp, attempt_of_none (hplan.symm.trans hp)]
      exact ⟨h, rfl⟩
    | some p =>
      have hoperator := operator_of_plan? hp
      rw [hx, hop] at hoperator
      obtain rfl := Option.some.inj hoperator
      obtain ⟨hsame, hnone, hnone'⟩ := outward_runPlan replayLast h hrepeat hhost
      rw [attempt_of_some hp, attempt_of_some (hplan.symm.trans hp)]
      exact ⟨hsame, hnone.trans hnone'.symm⟩
  prepare x d := by
    rw [prepare_eq]
    rfl
  report _ _ := rfl
  endGroup _ := rfl

theorem bare_prepare (x : Editor) (d : Command) : (x.prepare d).bare = x.bare := by
  have hgroup := x.buffer.history.endGroup_beginGroup
  rw [prepare_eq]
  exact congrArg (fun history => { x.bare with buffer := { x.buffer with history } }) hgroup

theorem attempt_bare {names : List String} (hop : e.config.operator? c.operator = some op)
    (h : op.action = .hostCommands names) :
    e.bare.attempt c = ((e.attempt c).1.bare, (e.attempt c).2) := by
  have hplan : e.bare.plan? c = e.plan? c := rfl
  cases hp : e.plan? c with
  | none => rw [attempt_of_none hp, attempt_of_none (hplan.trans hp)]
  | some p =>
    have hoperator := operator_of_plan? hp
    rw [hop] at hoperator
    obtain rfl := Option.some.inj hoperator
    rw [attempt_of_some hp, attempt_of_some (hplan.trans hp)]
    exact runPlan_bare e replayLast h

theorem decides_bare {names : List String} (hop : config.operator? c.operator = some op)
    (h : op.action = .hostCommands names) : Decides bare config c where
  outward h := congrArg (fun x => x.outward) h
  attempt {x y} hx hxy := by
    have hy : y.config = config := by
      rw [← hx]
      exact congrArg (·.config) hxy.symm
    have hrun := attempt_bare (e := x) (by rwa [hx]) h
    rw [hxy, attempt_bare (by rwa [hy]) h] at hrun
    obtain ⟨hsame, hfailure⟩ := Prod.mk.inj hrun
    exact ⟨hsame.symm, hfailure.symm⟩
  prepare := bare_prepare
  report _ _ := rfl
  endGroup _ := rfl

/-- No message tells of an error. -/
def Quiet (e : Editor) : Prop := ∀ m, e.message = some m → m.severity ≠ .error

theorem config_dispatch (e : Editor) (c : Command) : (e.dispatch c).config = e.config := by
  rw [(settings_dispatch e c).1]

theorem message_dispatch (e : Editor) (c : Command) :
    (e.dispatch c).message = ((e.prepare c).run c).message := by
  rw [dispatch_eq]
  dsimp only
  split <;> rfl

namespace Decides

theorem mode (hS : Decides S config c) (h : S x = S y) : x.mode = y.mode :=
  mode_of_outward (hS.outward h)

theorem once (hS : Decides S config c) (hx : x.config = config) (h : S x = S y) :
    S (x.once c) = S (y.once c) :=
  (hS.attempt hx h).1

/-- Dispatching adds nothing to running. -/
theorem dispatch_eq_run (hS : Decides S config c) (e : Editor) (d : Command) :
    S (e.dispatch d) = S ((e.prepare d).run d) := by
  rw [dispatch_eq]
  dsimp only
  split
  · rfl
  · exact hS.endGroup _

/-- Without a count, dispatching a command runs it once, and tells if it fails. -/
theorem dispatch (hS : Decides S config c) (he : e.config = config)
    (hop : config.operator? c.operator = some op) (hc : c.isVirtual = false) (hcount : c.count = 1) :
    S (e.dispatch c) = S (e.once c) ∧ ((e.dispatch c).Quiet → (e.attempt c).2 = none) := by
  have hconfig : (e.prepare c).config = config := (config_prepare e c).trans he
  have hrun := run_eq_attempt (e := e.prepare c) (by rwa [hconfig]) hc hcount
  obtain ⟨honce, hfailure⟩ := hS.attempt hconfig (hS.prepare e c)
  rw [hS.dispatch_eq_run, Quiet, message_dispatch, hrun]
  generalize (e.prepare c).attempt c = result at honce hfailure
  rcases result with ⟨x, _ | cause⟩
  · exact ⟨honce, fun _ => hfailure.symm⟩
  · refine ⟨(hS.report x cause).trans honce, ?_⟩
    intro hquiet
    exact absurd rfl (hquiet _ rfl)

theorem iterate_once (hS : Decides S config c) (hx : x.config = config) (h : S x = S y) (n : Nat) :
    S ((Editor.once c)^[n] x) = S ((Editor.once c)^[n] y) := by
  induction n generalizing x y with
  | zero => exact h
  | succ n ih => exact ih ((config_once c x).trans hx) (hS.once hx h)

theorem iterate_dispatch (hS : Decides S config c) (he : e.config = config)
    (hop : config.operator? c.operator = some op) (hc : c.isVirtual = false) (hcount : c.count = 1)
    (n : Nat) : S ((Editor.dispatch · c)^[n] e) = S ((Editor.once c)^[n] e) := by
  induction n generalizing e with
  | zero => rfl
  | succ n ih =>
    have hconfig : (e.dispatch c).config = config := (config_dispatch e c).trans he
    have hfirst := (hS.dispatch he hop hc hcount).1
    exact (ih hconfig).trans (hS.iterate_once hconfig hfirst n)

/-- **A count dispatches as often**, but for what dispatching itself sets. -/
theorem dispatch_with_count (hS : Decides S config c) (he : e.config = config)
    (hop : config.operator? c.operator = some op) (hc : c.isVirtual = false) (hcount : c.count = 1)
    (hn : 0 < n) (hmode : ∀ k, 0 < k → k < n → ((Editor.dispatch · c)^[k] e).mode = e.mode)
    (hquiet : ∀ k, 0 < k → k ≤ n → ((Editor.dispatch · c)^[k] e).Quiet) :
    S (e.dispatch { c with count := n }) = S ((Editor.dispatch · c)^[n] e) := by
  let x := e.prepare { c with count := n }
  have hx : x.config = config := (config_prepare ..).trans he
  have hmode' : x.mode = e.mode := hS.mode (hS.prepare ..)
  -- Run by run, the two ways go together.
  have htogether (k : Nat) : S ((Editor.once c)^[k] x) = S ((Editor.dispatch · c)^[k] e) :=
    (hS.iterate_once hx (hS.prepare ..) k).trans (hS.iterate_dispatch he hop hc hcount k).symm
  have hrun : x.run { c with count := n } = (Editor.once c)^[n] x := by
    refine run_with_count (by rwa [hx]) hc hn ?_ ?_
    · intro k hk hkn
      rw [hS.mode (htogether k), hmode k hk hkn, hmode']
    · intro k hkn
      have hlater := hquiet (k + 1) (Nat.succ_pos k) hkn
      rw [Function.iterate_succ_apply'] at hlater
      have hconfig : ((Editor.dispatch · c)^[k] e).config = config :=
        (config_iterate (config_dispatch · c) k e).trans he
      have hconfig' : ((Editor.once c)^[k] x).config = config :=
        (config_iterate (config_once c) k x).trans hx
      rw [(hS.attempt hconfig' (htogether k)).2]
      exact (hS.dispatch hconfig hop hc hcount).2 hlater
  rw [hS.dispatch_eq_run]
  exact (congrArg S hrun).trans (htogether n)

end Decides

/-- Every spelled command that stands for itself has something that decides what it does. -/
theorem exists_decides {m : Mode} (h : SpellsIn config m keys c)
    (hc : c.isVirtual = false) :
    ∃ op S, config.operator? c.operator = some op ∧ Decides S config c := by
  obtain ⟨op, hop, hvirtual⟩ := h.exists_operator
  by_cases hhost : ∃ names, op.action = .hostCommands names
  · obtain ⟨names, hnames⟩ := hhost
    exact ⟨op, bare, hop, decides_bare hop hnames⟩
  · have hrepeat : op.action ≠ .repeatLast := by
      intro hrepeat
      have hstandIn := (Config.operator?_kind hop).2.1.2 hrepeat
      rw [hvirtual.2 hstandIn] at hc
      cases hc
    exact ⟨op, Editor.outward, hop, decides_outward hop hrepeat (not_exists.1 hhost)⟩

/-! ### Typing -/

/-- Keys that spell a command, typed again and again, dispatch it as often, as long as the mode
stays. -/
theorem foldl_typeKey_copies (hread : e.NothingRead) (h : SpellsIn e.config e.mode keys c)
    (hmode : ∀ k, 0 < k → k < n →
      ((List.replicate k keys).flatten.foldl typeKey e).mode = e.mode) {k : Nat} (hk : k ≤ n) :
    (List.replicate k keys).flatten.foldl typeKey e = (dispatch · c)^[k] e ∧
      ((dispatch · c)^[k] e).NothingRead := by
  induction k with
  | zero => exact ⟨rfl, hread⟩
  | succ k ih =>
    obtain ⟨htyped, hread'⟩ := ih (by omega)
    have hstays : ((dispatch · c)^[k] e).mode = e.mode := by
      rcases Nat.eq_zero_or_pos k with rfl | hpos
      · rfl
      · rw [← htyped]
        exact hmode k hpos hk
    have hconfig : ((dispatch · c)^[k] e).config = e.config :=
      config_iterate (config_dispatch · c) k e
    rw [List.replicate_succ', List.flatten_concat, List.foldl_append, htyped,
      Function.iterate_succ_apply']
    refine ⟨foldl_typeKey_of_spellsIn hread' ?_, nothingRead_dispatch hread' c⟩
    rwa [hconfig, hstays]

end Editor

namespace Session

open Command (SpellsIn)

variable {s : Session} {c : Command} {rest : List Char} {n : Nat}

/-- **A counted command is the command repeated.**  When no keys are pending, a count before the
keys of a command that does not stand for another one leads to the same text and selection, the same
register and clipboard, mode and anchor and part on view as typing the keys as often; provided that
no typing but the last changes the mode, and none reports an error. -/
theorem counted_eq_repeated (henabled : s.enabled = true) (hpending : s.hasPending = false)
    (hspells : SpellsIn s.config s.mode (c.operator :: rest) c) (hc : c.isVirtual = false)
    (hdigit : c.operator.isDigit = false) (hn : 1 ≤ n) (hmax : n ≤ 99999)
    (hmode : ∀ k, 0 < k → k < n →
      (s.typeKeys (List.replicate k (c.operator :: rest)).flatten).mode = s.mode)
    (hquiet : ∀ k, 0 < k → k ≤ n →
      (s.typeKeys (List.replicate k (c.operator :: rest)).flatten).Quiet) :
    let x := s.typeKeys (Nat.toDigits 10 n ++ c.operator :: rest)
    let y := s.typeKeys (List.replicate n (c.operator :: rest)).flatten
    x.lines = y.lines ∧ x.buffer.selection = y.buffer.selection ∧ x.register = y.register ∧
      x.buffer.clipboard = y.buffer.clipboard ∧ x.mode = y.mode ∧
      x.phase.anchor? = y.phase.anchor? ∧ x.buffer.scrollTop = y.buffer.scrollTop := by
  intro x y
  have hm : s.mode ≠ .insert := by
    intro hm
    rw [hm] at hspells
    cases hspells
  have hread : s.NothingRead :=
    Phase.dropPending_of_pending (by simpa [Editor.hasPending] using hpending) hm
  -- what is dispatched
  obtain ⟨hcount, hcounted⟩ := hspells.with_count hdigit
  have hx : x = s.dispatch { c with count := n } := by
    have hkeys := hcounted (Nat.toDigits 10 n) (.inr (Digits.isNumeral_toDigits hn))
    have hamount : Digits.amount (Nat.toDigits 10 n) = n :=
      (Digits.amount_toDigits hn).trans (Nat.min_eq_left hmax)
    rw [hamount] at hkeys
    rw [← Editor.foldl_typeKey_of_spellsIn hread hkeys]
    exact if_pos henabled
  have htype (keys : List Char) : s.typeKeys keys = keys.foldl Editor.typeKey s.toEditor :=
    if_pos henabled
  simp only [htype] at hmode hquiet
  have hcopies {k : Nat} (hk : k ≤ n) := Editor.foldl_typeKey_copies hread hspells hmode hk
  have hy : y = (Editor.dispatch · c)^[n] s.toEditor :=
    (htype _).trans (hcopies (Nat.le_refl n)).1
  -- Run by run, the two do the same.
  obtain ⟨op, S, hop, hS⟩ := Editor.exists_decides hspells hc
  have hsame := hS.dispatch_with_count rfl hop hc hcount hn
    (fun k hk hkn => by rw [← (hcopies (Nat.le_of_lt hkn)).1]; exact hmode k hk hkn)
    (fun k hk hkn => by rw [← (hcopies hkn).1]; exact hquiet k hk hkn)
  rw [← hx, ← hy] at hsame
  have houtward := hS.outward hsame
  exact ⟨congrArg (·.buffer.document.lines) houtward,
    congrArg (·.buffer.document.selection) houtward, congrArg (·.register) houtward,
    congrArg (·.buffer.clipboard) houtward, congrArg (·.phase.mode) houtward,
    congrArg (·.phase.anchor?) houtward, congrArg (·.buffer.scrollTop) houtward⟩

/-- Two lines deleted with a count and one by one. -/
theorem counted_eq_repeated_lines :
    let s := start ['a', '\n', 'b', '\n', 'c'] 5 {} {} (.memory none) none
    (s.typeKeys ['2', 'd', 'd']).lines = (s.typeKeys ['d', 'd', 'd', 'd']).lines ∧
      (s.typeKeys ['2', 'd', 'd']).buffer.text = ['c'] := by
  intro s
  have hmode : s.mode = .normal := by decide +kernel
  have henabled : s.enabled = true := by decide +kernel
  have hpending : s.hasPending = false := by decide +kernel
  have hopens : Command.Opens s.config .range [] 'd' :=
    Command.opens_range (o := ⟨.range, .edit, .delete⟩) (by decide +kernel) rfl
  have hstays : (s.typeKeys ['d', 'd']).mode = .normal := by decide +kernel
  have honce : (s.typeKeys ['d', 'd']).message = none := by decide +kernel
  have htwice : (s.typeKeys ['d', 'd', 'd', 'd']).message = none := by decide +kernel
  have htext : (s.typeKeys ['2', 'd', 'd']).buffer.text = ['c'] := by decide +kernel
  have hkeys : Nat.toDigits 10 2 ++ ['d', 'd'] = ['2', 'd', 'd'] := by decide
  clear_value s
  have hspells : SpellsIn s.config s.mode ['d', 'd'] { operator := 'd', motion := some 'd' } := by
    rw [hmode]
    exact .wholeLine hopens (.inl rfl)
  have hquiet {keys : List Char} (h : (s.typeKeys keys).message = none) :
      (s.typeKeys keys).Quiet := by
    intro m hm
    rw [h] at hm
    cases hm
  have hone : ∀ k, 0 < k → k < 2 →
      (s.typeKeys (List.replicate k ['d', 'd']).flatten).mode = s.mode := by
    intro k hk hkn
    obtain rfl : k = 1 := by omega
    exact hstays.trans hmode.symm
  have htwo : ∀ k, 0 < k → k ≤ 2 →
      (s.typeKeys (List.replicate k ['d', 'd']).flatten).Quiet := by
    intro k hk hkn
    obtain rfl | rfl : k = 1 ∨ k = 2 := by omega
    · exact hquiet honce
    · exact hquiet htwice
  have hsame := counted_eq_repeated (c := { operator := 'd', motion := some 'd' }) henabled hpending
    hspells rfl rfl (by decide) (by decide) hone htwo
  rw [hkeys] at hsame
  exact ⟨hsame.1, htext⟩

end Session

end ModalEditor
