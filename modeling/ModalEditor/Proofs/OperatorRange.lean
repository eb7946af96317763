import ModalEditor.Proofs.Reachable
import ModalEditor.Proofs.Travel

/-!
# The range of an operator

An operator and a counted motion work on the stretch between the cursor and the place to which the
same keys, typed as a movement, would bring it.  The operator plans the motion at once, by chaining
its steps (`Editor.plan?_travel`); the movement is run step by step, each time from where the cursor
is then (`Editor.cursor_foldl_typeKey_travel`).  Both lead to where the iterated motion leads.
-/

namespace ModalEditor

/-- In normal mode, moving leads from cursor to cursor. -/
theorem roams_normal (ls : Lines) (config : Config) : Roams ls config .normal fun p v =>
    v.document.lines = ls ∧ v.document.cursor = p ∧ v.config = config ∧
      v.phase = .normal .initial where
  lines h := h.1
  cursor h := h.2.1
  config h := h.2.2.1
  mode h := by rw [h.2.2.2]; rfl
  moveTo := by
    rintro p q e ⟨hlines, -, hconfig, hphase⟩ hq
    have hlines' : e.lines = ls := hlines
    have hphase' : e.phase = .normal .initial := hphase
    rw [← hlines'] at hq
    have hselection : e.selectionAt (e.lines.clamp q) = .caret q := by
      rw [Lines.clamp_of_inRange hq, Editor.selectionAt, hphase']
    rw [Editor.view_moveTo, hselection]
    exact ⟨hlines, Lines.clamp_of_inRange hq, hconfig, hphase⟩

namespace Editor

variable {e : Editor} {t : Travel} {k op : Char} {ds : Digits}

/-- Typed as a movement, a counted motion brings the cursor to where its last step leads. -/
theorem cursor_foldl_typeKey_travel (hphase : e.phase = .normal .initial)
    (hp : e.lines.InRange e.buffer.cursor) (hds : ds.IsCount) (ht : t.Spells k)
    (hk : e.config.operator? k = some t.operator) :
    ((ds ++ k :: t.argument.toList).foldl typeKey e).buffer.cursor =
      (e.view.step t)^[max ds.amount 1] e.buffer.cursor := by
  rw [foldl_typeKey_of_spells hphase (Travel.spells_movement hk hds ht)]
  exact (at_dispatch_travel (y := e) (roams_normal e.lines e.config)
    (c := { operator := k, count := ds.amount, argument := t.argument }) hp hk rfl rfl
    ⟨rfl, rfl, rfl, hphase⟩).2.1

/-- An operator and a counted motion are planned on the stretch to where the motion leads. -/
theorem plan?_travel {r : NormalReader} {kind : Kind} {action : Action}
    (hphase : e.phase = .normal r) (hp : e.lines.InRange e.buffer.cursor) (ht : t.Spells k)
    (hop : e.config.operator? op = some ⟨.range, kind, action⟩) (hk : k ≠ op) (n : Nat) :
    e.plan? { operator := op, motion := some k, motionCount := n, argument := t.argument } =
      some ⟨⟨.range, kind, action⟩, 1,
        .ofSpan (.between e.buffer.cursor ((e.view.step t)^[max n 1] e.buffer.cursor)),
        t.argument⟩ := by
  let c : Command :=
    { operator := op, motion := some k, motionCount := n, argument := t.argument }
  have htarget := target?_travel (c := c) hphase hp ht hk rfl rfl
  have hplan := plan?_of_range (c := c) hop rfl htarget
  have hmode : e.mode ≠ .visual := by simp [mode, hphase, Phase.mode]
  rw [if_neg hmode] at hplan
  exact hplan

end Editor

theorem Operator.exists_builtin?_range {op : Char} (h : op ∈ ['d', 'y', 'c', '>', '<']) :
    ∃ kind action, builtin? op = some ⟨.range, kind, action⟩ := by
  simp only [List.mem_cons, List.not_mem_nil, or_false] at h
  rcases h with rfl | rfl | rfl | rfl | rfl <;> exact ⟨_, _, rfl⟩

namespace Session

variable {s : Session}

/-- **The range of an operator is the way of the movement.**  In a reachable session in normal mode,
an operator, a count and a motion are read as one command, which is planned once and on exactly the
stretch between the cursor and the place where the count and the motion, typed as a movement, leave
the cursor. -/
theorem plan?_eq_between (h : s.Reachable) (hmode : s.mode = .normal) {n : Nat} (hn : 1 ≤ n)
    {m : Char} {argument : Option Char}
    (hm : m ∈ ['w', 'b', 'h', 'j', 'k', 'l', 'e', 's', 'D', 'U'] ∧ argument = none ∨
      m ∈ ['f', 'F'] ∧ argument.isSome)
    {op : Char} (hop : op ∈ ['d', 'y', 'c', '>', '<'])
    (hfree : ∀ c ∈ [m, op], s.config.hostCommands? c = none) :
    let motion := Nat.toDigits 10 n ++ m :: argument.toList
    let c : Command :=
      { operator := op, motion := some m, motionCount := min n Digits.maximum, argument }
    let waiting : Editor := { s.dropPending with enabled := true }
    let p := s.buffer.cursor
    let q := (waiting.typeKeys motion).buffer.cursor
    (Reading.ofKeys s.config (op :: motion)).completed =
        List.replicate motion.length none ++ [some c] ∧
      ∃ operator, Operator.builtin? op = some operator ∧
        s.plan? c = some
          { operator
            count := 1
            target :=
              { span := .between p q
                lineWise := false
                first := (Span.between p q).start.line
                last := (Span.between p q).stop.line }
            argument } := by
  intro motion c waiting p q
  obtain ⟨t, rfl, ht⟩ := Travel.exists_spells hm
  obtain ⟨kind, action, hbuiltin⟩ := Operator.exists_builtin?_range hop
  have hop' : s.config.operator? op = some ⟨.range, kind, action⟩ := by
    rw [Config.operator?, hfree op (by simp), hbuiltin]
  have hk : s.config.operator? m = some t.operator := by
    rw [Config.operator?, hfree m (by simp), ht.2]
  obtain ⟨r, hphase⟩ : ∃ r, s.phase = .normal r := by
    cases hphase : s.phase with
    | normal r => exact ⟨r, rfl⟩
    | insert | visual => rw [Editor.mode, hphase] at hmode; cases hmode
  have hp : s.lines.InRange s.buffer.cursor := h.buffer_wellFormed.document.2.2
  have hds : Digits.IsCount (Nat.toDigits 10 n) := .inr (Digits.isNumeral_toDigits hn)
  have hamount := Digits.amount_toDigits hn
  -- what is read
  have hopens : Command.Opens s.config .range [] op := Command.opens_range hop' rfl
  have hspells := Travel.spells_range hopens hds ht
  rw [hamount] at hspells
  -- where the movement leads
  have hwaiting : waiting.phase = .normal .initial := by
    show s.phase.dropPending = _
    rw [hphase]; rfl
  have hq : q = (s.view.step t)^[max (min n Digits.maximum) 1] p := by
    rw [← hamount]
    exact Editor.cursor_foldl_typeKey_travel (e := waiting) hwaiting hp hds ht hk
  refine ⟨?_, _, hbuiltin, ?_⟩
  · rw [Reading.ofKeys_of_spells hspells]
    rfl
  · rw [hq]
    exact Editor.plan?_travel hphase hp ht hop' (hopens.ne_of_ofChar? ht.1) _

/-- Two words from the second column: the movement crosses a blank and stops at the third word. -/
theorem plan?_eq_between_twoWords :
    let s := (start ['a', 'b', ' ', 'c', ' ', 'd'] 5 {} {} (.memory none) none).operate
      (.setCursor ⟨0, 1⟩)
    let waiting : Editor := { s.dropPending with enabled := true }
    (waiting.typeKeys ['2', 'w']).buffer.cursor = ⟨0, 5⟩ ∧
      s.plan? { operator := 'd', motion := some 'w', motionCount := 2 } =
        some ⟨⟨.range, .edit, .delete⟩, 1, .ofSpan (.between ⟨0, 1⟩ ⟨0, 5⟩), none⟩ := by
  intro s waiting
  have hs : s.Reachable := .operate (.start ..) _
  have hmode : s.mode = .normal := rfl
  have hfree : ∀ c ∈ ['w', 'd'], s.config.hostCommands? c = none := by
    intro c hc
    simp only [List.mem_cons, List.not_mem_nil, or_false] at hc
    rcases hc with rfl | rfl <;> decide +kernel
  have hp : s.buffer.cursor = ⟨0, 1⟩ := by decide +kernel
  have hq : (waiting.typeKeys ['2', 'w']).buffer.cursor = ⟨0, 5⟩ := by decide +kernel
  have hkeys : Nat.toDigits 10 2 ++ 'w' :: Option.toList none = ['2', 'w'] := by decide
  clear_value s
  have hop : 'd' ∈ ['d', 'y', 'c', '>', '<'] := by decide
  obtain ⟨-, operator, hbuiltin, hplan⟩ := plan?_eq_between hs hmode (show 1 ≤ 2 by decide)
    (.inl ⟨by decide, rfl⟩) hop hfree
  obtain rfl : operator = ⟨.range, .edit, .delete⟩ := Option.some_inj.1 (hbuiltin.symm.trans rfl)
  rw [hkeys, hq, hp] at hplan
  exact ⟨hq, hplan⟩

end Session

end ModalEditor
