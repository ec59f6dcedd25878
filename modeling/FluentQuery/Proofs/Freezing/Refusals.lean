import FluentQuery.Proofs.RowBounds

/-! What row bounds refuse. An operation that changes the structure of a query checks its arguments
first, and the row bounds before it adds a step. So on a stream with a row bound it fails where it
would have been accepted, and changes nothing. -/

namespace FluentQuery

/-! ### Checks that change nothing -/

section Checks

variable {m m' : Machine}

theorem exec_selector_same {what : String} {target : Value} {p : Projection}
    (h : exec (selector what target) m = (.ok p, m')) : m' = m := by
  replace h := (exec_guarded_eq_ok.mp h).2
  split at h
  · exact (exec_pure_eq_ok.mp h).2.symm
  · exact (exec_pure_eq_ok.mp h).2.symm
  · split at h
    · exact (exec_pure_eq_ok.mp h).2.symm
    · obtain ⟨_, _, _, h⟩ := exec_bind_eq_ok.mp h
      simp at h

theorem exec_expressionSelector_same {what : String} {target : Value} {p : Projection}
    (h : exec (expressionSelector what target) m = (.ok p, m')) : m' = m := by
  unfold expressionSelector at h
  split at h
  · exact (exec_pure_eq_ok.mp h).2.symm
  · exact exec_selector_same h

theorem exec_requireUnbound_same {v : Value} {r : RefId}
    (h : exec (requireUnbound v) m = (.ok r, m')) : m' = m := by
  unfold requireUnbound at h
  split at h
  · rename_i r'
    rw [exec_bind_of_ok (exec_isBound r' m)] at h
    exact (exec_pure_eq_ok.mp (exec_else_eq_ok.mp h).2).2.symm
  · simp at h

theorem exec_orderKeys_same {position : Nat} {orders : List Value} {keys : List (Projection × Value)}
    (h : exec (Stream.orderKeys position orders) m = (.ok keys, m')) : m' = m := by
  fun_induction Stream.orderKeys position orders generalizing m m' keys with
  | case1 position => exact (exec_pure_eq_ok.mp h).2.symm
  | case2 position _ key ascending rest ih =>
    obtain ⟨p, m₁, hp, h⟩ := exec_bind_eq_ok.mp h
    obtain ⟨later, m₂, hl, h⟩ := exec_bind_eq_ok.mp h
    obtain ⟨-, rfl⟩ := exec_pure_eq_ok.mp h
    rw [ih hl, exec_selector_same hp]
  | case3 position _ _ _ => simp at h

end Checks

/-! ### Refusals -/

/-- What the structure of a query is frozen against: the operations that change it, by the name the
refusal calls them. -/
def Fluent.structure? : Fluent → Option String
  | filter _ => some "filter()"
  | distinct => some "distinct()"
  | orderBy .. | orderByAttributes _ | orderByListed _ => some "sorting"
  | groupBy _ | groupByListed _ | having _ => some "grouping"
  | addRoot .. => some "roots"
  | join .. => some "join()"
  | peek _ | bind .. | map _ | count | limit _ | skip _ | withParams _ | withOptions _ => none

def StreamOp.structure? : StreamOp → Option String
  | fluent op => op.structure?
  | assign .. => some "set()"

/-- An operation on streams of a query type that checks its arguments, then the row bounds, and then
adds a step. The check of the arguments changes nothing. -/
structure ChecksBounds (queryType : Value) (name : String) (check : Run Step)
    (apply : Stream → Run Stream) : Prop where
  still : ∀ {step m m'}, exec check m = (.ok step, m') → m' = m
  apply_eq : ∀ s : Stream, s.queryType = queryType → apply s = (do
    let step ← check
    s.requireUnbounded name
    s.extend step)

namespace ChecksBounds

variable {queryType : Value} {name : String} {check : Run Step} {apply : Stream → Run Stream}

/-- Without arguments to check. -/
theorem atOnce (step : Step) :
    ChecksBounds queryType name (pure step)
      fun s => do s.requireUnbounded name; s.extend step where
  still h := (exec_pure_eq_ok.mp h).2.symm
  apply_eq s _ := by rw [pure_bind]

/-- With arguments that are read. -/
theorem reading {α : Type} {read : Run α} (step : Value → α → Step)
    (still : ∀ {a m m'}, exec read m = (.ok a, m') → m' = m) :
    ChecksBounds queryType name (do return step queryType (← read))
      fun s => do
        let a ← read
        s.requireUnbounded name
        s.extend (step s.queryType a) where
  still h := by
    obtain ⟨a, m₁, ha, h⟩ := exec_bind_eq_ok.mp h
    rw [← (exec_pure_eq_ok.mp h).2, still ha]
  apply_eq s hs := by
    simp only [bind_assoc, pure_bind, hs]

/-- Behind one more check. -/
theorem guarded {c : Prop} [Decidable c] {e : Error} (h : ChecksBounds queryType name check apply) :
    ChecksBounds queryType name (if c then fail e else check)
      fun s => if c then (fail e : Run PUnit) >>= fun _ => apply s else apply s where
  still := by
    intro step m m' hs
    split at hs
    · simp at hs
    · exact h.still hs
  apply_eq s hs := by
    split
    · rfl
    · exact h.apply_eq s hs

variable {s t : Stream} {m m' : Machine}

theorem not_isBounded (h : ChecksBounds s.queryType name check apply)
    (accepted : exec (apply s) m = (.ok t, m')) : s.isBounded = false := by
  rw [h.apply_eq s rfl] at accepted
  obtain ⟨step, m₁, -, accepted⟩ := exec_bind_eq_ok.mp accepted
  obtain ⟨_, m₂, checked, -⟩ := exec_bind_eq_ok.mp accepted
  cases bounded : s.isBounded with
  | false => rfl
  | true =>
    have set : (s.firstResult.isSet || s.maxResults.isSet) = true := bounded
    unfold Stream.requireUnbounded at checked
    rw [if_pos set] at checked
    simp at checked

theorem refused (h : ChecksBounds s.queryType name check apply) (bounded : s.isBounded)
    (accepted : exec (apply s.unbounded) m = (.ok t, m')) :
    exec (apply s) m = (.error (.afterBounds name), m) := by
  rw [h.apply_eq s.unbounded rfl] at accepted
  obtain ⟨step, m₁, checked, -⟩ := exec_bind_eq_ok.mp accepted
  obtain rfl := h.still checked
  have set : (s.firstResult.isSet || s.maxResults.isSet) = true := bounded
  rw [h.apply_eq s rfl, exec_bind_of_ok checked]
  unfold Stream.requireUnbounded
  rw [if_pos set]
  exact exec_fail_bind _ _ _

end ChecksBounds

theorem Fluent.checksBounds {op : Fluent} {name : String} (h : op.structure? = some name)
    (queryType : Value) : ∃ check, ChecksBounds queryType name check fun s => op.apply s := by
  cases op with
  | filter predicate =>
    cases h
    exact ⟨_, .reading (fun queryType p => .filter queryType p) exec_selector_same⟩
  | distinct =>
    cases h
    exact ⟨_, .atOnce _⟩
  | orderBy target ascending =>
    cases h
    exact ⟨_, .reading (fun _ p => .sort (.keys [(p, ascending)])) exec_expressionSelector_same⟩
  | orderByAttributes orders =>
    cases h
    exact ⟨_, .guarded (.reading (fun _ keys => .sort (.keys keys)) exec_orderKeys_same)⟩
  | orderByListed f =>
    cases h
    exact ⟨_, .guarded (.atOnce _)⟩
  | groupBy target =>
    cases h
    exact ⟨_, .reading (fun _ p => .group (.key p)) exec_expressionSelector_same⟩
  | groupByListed f =>
    cases h
    exact ⟨_, .guarded (.atOnce _)⟩
  | having predicate =>
    cases h
    exact ⟨_, .reading (fun _ p => .having p) exec_selector_same⟩
  | addRoot r entity =>
    cases h
    exact ⟨_, .guarded (.reading (fun _ r => .addRoot r entity) exec_requireUnbound_same)⟩
  | join key outer =>
    cases h
    exact ⟨_, .guarded (.atOnce _)⟩
  | peek | bind | map | count | limit | skip | withParams | withOptions => cases h

theorem StreamOp.checksBounds {op : StreamOp} {name : String} (h : op.structure? = some name)
    (queryType : Value) : ∃ check, ChecksBounds queryType name check fun s => op.apply s := by
  cases op with
  | fluent op => exact Fluent.checksBounds h queryType
  | assign key v =>
    cases h
    exact ⟨_, .guarded (.atOnce _)⟩

/-- Every operation that would change the structure of the query is refused. Where it would be
accepted without the row bounds, it fails by name and changes nothing. -/
def Stream.Frozen (s : Stream) : Prop :=
  ∀ (op : StreamOp) name t m m', op.structure? = some name →
    exec (op.apply s.unbounded) m = (.ok t, m') →
    exec (op.apply s) m = (.error (.afterBounds name), m) ∧
      (Error.afterBounds name).errorClass = .unsupportedCombination

theorem Stream.frozen_of_isBounded {s : Stream} (bounded : s.isBounded) : s.Frozen := by
  intro op name t m m' structural accepted
  obtain ⟨check, checks⟩ := StreamOp.checksBounds structural s.queryType
  exact ⟨checks.refused bounded accepted, rfl⟩

end FluentQuery
