import Mathlib.Data.List.Chain
import FluentQuery.Proofs.Balance

/-! The history of Refs. A Ref holds what was last written to it: the value of a bind, or
nothing since it was unbound or made. A value is only written where nothing is. Every
elementary step upholds both, so every program does, and what was written is never
forgotten. -/

namespace FluentQuery

/-! ### Histories -/

/-- What the last write left behind. -/
def lastWritten (ws : List (Option Value)) : Option Value := ws.getLast?.join

theorem lastWritten_concat (ws : List (Option Value)) (v? : Option Value) :
    lastWritten (ws ++ [v?]) = v? := by
  simp [lastWritten]

/-- Something is left exactly if the last write was a value. -/
theorem lastWritten_eq_some {ws : List (Option Value)} {v : Value} :
    lastWritten ws = some v ↔ ws.getLast? = some (some v) :=
  Option.join_eq_some_iff

/-- No value was written over another. -/
def WriteOnce (ws : List (Option Value)) : Prop :=
  ws.IsChain fun before after => after.isSome → before = none

theorem WriteOnce.concat {ws : List (Option Value)} (h : WriteOnce ws) {v? : Option Value}
    (room : v?.isSome → lastWritten ws = none) : WriteOnce (ws ++ [v?]) := by
  refine List.isChain_append.mpr ⟨h, .singleton _, fun last hl v hv some => ?_⟩
  obtain rfl : v? = v := by simpa using hv
  have empty := room some
  rwa [lastWritten, Option.mem_def.mp hl] at empty

/-- What follows a value is that it was unbound. -/
theorem WriteOnce.unbound {ws later : List (Option Value)} {v : Value}
    (h : WriteOnce (ws ++ later)) (held : lastWritten ws = some v) (more : later ≠ []) :
    none ∈ later := by
  obtain ⟨w, rest, rfl⟩ := List.exists_cons_of_ne_nil more
  have next := (List.isChain_append.mp h).2.2 (some v) (lastWritten_eq_some.mp held) w rfl
  cases w with
  | none => exact List.mem_cons_self
  | some w => cases next rfl

namespace Machine

/-- What was written to a Ref so far, oldest first; none where it was unbound. -/
def history (m : Machine) (r : RefId) : List (Option Value) := (m.writes[r.index]?).getD []

theorem history_write {m : Machine} {r : RefId} (h : r.index < m.writes.length)
    (v? : Option Value) : (m.write r v?).history r = m.history r ++ [v?] := by
  simp [history, Machine.write, h]

theorem history_write_of_ne {r r' : RefId} (h : r' ≠ r) (m : Machine) (v? : Option Value) :
    (m.write r v?).history r' = m.history r' := by
  have differ : r.index ≠ r'.index := fun same => h (by cases r; cases r'; simp_all)
  simp [history, Machine.write, differ]

/-- Every Ref holds what was last written to it, and no value was written over another. -/
structure Recorded (m : Machine) : Prop where
  refs : m.refs = m.writes.map lastWritten
  once : ∀ ws ∈ m.writes, WriteOnce ws

namespace Recorded

variable {m : Machine}

theorem start (settings : Diagnostics) : (Machine.start settings).Recorded :=
  ⟨rfl, fun _ h => by cases h⟩

theorem ref? (h : m.Recorded) (r : RefId) : m.ref? r = lastWritten (m.history r) := by
  unfold Machine.ref? history
  rw [h.refs, List.getElem?_map]
  cases m.writes[r.index]? <;> rfl

theorem length (h : m.Recorded) : m.writes.length = m.refs.length := by
  rw [h.refs, List.length_map]

theorem history_once (h : m.Recorded) (r : RefId) : WriteOnce (m.history r) := by
  unfold history
  cases hr : m.writes[r.index]? with
  | none => exact .nil
  | some ws => exact h.once ws (List.mem_of_getElem? hr)

theorem newRef (h : m.Recorded) : (after RefId.new m).Recorded := by
  refine ⟨?_, fun ws hw => ?_⟩
  · change m.refs ++ [none] = (m.writes ++ [[]]).map lastWritten
    rw [h.refs, List.map_append]
    rfl
  · rcases List.mem_append.mp hw with old | new
    · exact h.once ws old
    · rw [List.mem_singleton.mp new]
      exact .nil

/-- A write of a value to a Ref that holds none, or of nothing. -/
theorem write (h : m.Recorded) {r : RefId} {v? : Option Value} (room : v?.isSome → m.ref? r = none) :
    (m.write r v?).Recorded := by
  refine ⟨List.ext_getElem? fun i => ?_, fun ws hw => ?_⟩
  · change (m.refs.set r.index v?)[i]? =
      ((m.writes.modify r.index (· ++ [v?])).map lastWritten)[i]?
    rw [h.refs, List.getElem?_set, List.getElem?_map, List.getElem?_map, List.getElem?_modify,
      List.length_map]
    by_cases hi : r.index = i
    · subst hi
      by_cases known : r.index < m.writes.length
      · simp [known, lastWritten_concat]
      · simp [known]
    · simp [hi]
  · obtain ⟨i, hi⟩ := List.mem_iff_getElem?.mp hw
    change (m.writes.modify r.index (· ++ [v?]))[i]? = some ws at hi
    rw [List.getElem?_modify] at hi
    obtain ⟨old, ho, rfl⟩ := Option.map_eq_some_iff.mp hi
    have once := h.once old (List.mem_of_getElem? ho)
    split
    · rename_i same
      subst same
      have written : m.history r = old := by simp [history, ho]
      exact once.concat fun some => by rw [← written, ← h.ref? r, room some]
    · exact once

end Recorded

end Machine

/-! ### Every step records -/

/-- Refs still hold what was last written to them, and what was written is not forgotten. -/
structure Recording (m m' : Machine) : Prop where
  recorded : m.Recorded → m'.Recorded
  grows : ∀ r, m.history r <+: m'.history r

namespace Recording

theorem of_eq {m m' : Machine} (hr : m'.refs = m.refs) (hw : m'.writes = m.writes) :
    Recording m m' := by
  refine ⟨fun h => ⟨?_, ?_⟩, fun r => ?_⟩
  · rw [hr, hw]
    exact h.refs
  · rw [hw]
    exact h.once
  · have same : m'.history r = m.history r := by rw [Machine.history, Machine.history, hw]
    exact same ▸ List.prefix_rfl

theorem trans {a b c : Machine} (hab : Recording a b) (hbc : Recording b c) : Recording a c :=
  ⟨hbc.recorded ∘ hab.recorded, fun r => (hab.grows r).trans (hbc.grows r)⟩

instance : Inert Recording where
  refl _ := of_eq rfl rfl
  trans := trans
  fresh _ := of_eq rfl rfl
  newMapping _ _ := of_eq rfl rfl
  log _ _ := of_eq rfl rfl
  handle _ _ := of_eq rfl rfl

theorem newRef : Keeps Recording RefId.new := by
  refine fun m => ⟨fun h => h.newRef, fun r => ?_⟩
  change m.history r <+: ((m.writes ++ [[]])[r.index]?).getD []
  rw [Machine.history, List.getElem?_append]
  split
  · exact List.prefix_rfl
  · rename_i outside
    rw [List.getElem?_eq_none (Nat.le_of_not_lt outside)]
    exact List.nil_prefix

theorem write {m : Machine} {r : RefId} {v? : Option Value} (room : v?.isSome → m.ref? r = none) :
    Recording m (m.write r v?) := by
  refine ⟨fun h => h.write room, fun r' => ?_⟩
  by_cases same : r' = r
  · subst same
    by_cases known : r'.index < m.writes.length
    · rw [Machine.history_write known]
      exact List.prefix_append _ _
    · have unknown : m.history r' = [] := by simp [Machine.history, known]
      rw [unknown]
      exact List.nil_prefix
  · exact (Machine.history_write_of_ne same m v?).symm ▸ List.prefix_rfl

theorem blind (m : Machine) (contexts : List Context) : Recording m { m with contexts } :=
  of_eq rfl rfl

instance : Creating Recording where
  newRef := newRef
  bind r v m := by
    rw [after, exec_bindRef]
    split
    · exact of_eq rfl rfl
    · rename_i free
      exact write fun _ => by simpa using free
  unbind r m := show Recording m (m.write r none) from write fun h => by cases h
  newContext _ _ := of_eq rfl rfl
  updateMapping _ _ _ := of_eq rfl rfl
  newQuery _ _ := of_eq rfl rfl
  writeQuery _ _ _ := of_eq rfl rfl
  note _ _ := of_eq rfl rfl
  setGlobal _ _ _ := of_eq rfl rfl
  onStack stack body hb m := by
    rw [after, exec_onStack]
    have inner := hb { m with stack }
    exact ⟨fun h => have := inner.recorded ⟨h.refs, h.once⟩; ⟨this.refs, this.once⟩, inner.grows⟩

instance : Guarantee Recording := .of_blind blind

/-- A Ref that was not unbound since still holds what it held, and nothing was written to it. -/
theorem held {m m' : Machine} (h : Recording m m') (hm : m.Recorded) {r : RefId} {v : Value}
    (bound : m.ref? r = some v) {later : List (Option Value)}
    (written : m'.history r = m.history r ++ later) (kept : none ∉ later) :
    later = [] ∧ m'.ref? r = some v := by
  have hm' := h.recorded hm
  rw [hm.ref? r] at bound
  have once := hm'.history_once r
  rw [written] at once
  have nothing : later = [] := by
    by_contra more
    exact kept (once.unbound bound more)
  refine ⟨nothing, ?_⟩
  rw [hm'.ref? r, written, nothing, List.append_nil, bound]

end Recording

/-! ### Programs -/

theorem ProgramStep.run_keeps {R : Machine → Machine → Prop} [Guarantee R] (step : ProgramStep) :
    Keeps R step.run := by
  unfold ProgramStep.run
  refine (eval_keeps _ _ _).bind fun v => ?_
  split <;> grind

/-- At every moment between the steps of a program its Refs hold what was last written to them. -/
theorem runSteps_recorded (steps : List ProgramStep) {m : Machine} (h : m.Recorded) :
    (runSteps steps m).2.Recorded := by
  induction steps generalizing m with
  | nil => exact h
  | cons step steps ih =>
    rw [runSteps_cons]
    have cleared : { m with trace := [], log := [] }.Recorded := ⟨h.refs, h.once⟩
    exact ih ((step.run_keeps (R := Recording) _).recorded cleared)

end FluentQuery
