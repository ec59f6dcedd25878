import FluentQuery.Proofs.Guarantee.Stores

/-! Chains of fluent operations. Whatever happens between its operations, a chain that
was put together without a failure has the steps of its operations, in order, and the
start and the query type of the stream it began with. -/

namespace FluentQuery

namespace Projection

/-- How an attribute or a function reads a selection. -/
def selected : Value → Projection
  | v@(.text ..) | v@(.member _) => .named v
  | v => .function v

/-- Like `selected`, and a Ref stands for what it holds. -/
def expressed : Value → Projection
  | .ref r => .held r
  | v => selected v

end Projection

/-- The operations a search stream offers. -/
inductive Fluent where
  | filter (predicate : Value)
  | peek (f : Value)
  | bind (r : RefId) (f : Value)
  | distinct
  | orderBy (target ascending : Value)
  | orderByAttributes (orders : List Value)
  | orderByListed (f : Value)
  | groupBy (target : Value)
  | groupByListed (f : Value)
  | having (predicate : Value)
  | addRoot (r : RefId) (entity : Value)
  | join (key outer : Value)
  | map (target : Value)
  | count
  | limit (n : Value)
  | skip (n : Value)
  | withParams (params : List (String × Value))
  | withOptions (options : List (String × Value))

namespace Fluent

/-- The stream an operation makes of another. -/
def apply (s : Stream) : Fluent → Run Stream
  | filter predicate => s.filter predicate
  | peek f => s.peek f
  | bind r f => s.bind (.ref r) f
  | distinct => s.distinct
  | orderBy target ascending => s.orderBy target ascending
  | orderByAttributes orders => s.orderByAttributes orders
  | orderByListed f => s.orderByListed f
  | groupBy target => s.groupBy target
  | groupByListed f => s.groupByListed f
  | having predicate => s.having predicate
  | addRoot r entity => s.addRoot (.ref r) entity
  | join key outer => s.join key outer
  | map target => s.map target
  | count => s.count
  | limit n => s.limit n
  | skip n => s.skip n
  | withParams params => s.withParams params
  | withOptions options => s.withOptions options

/-- The keys of an ordering by pairs of an attribute and a direction. -/
def orderPairs (orders : List Value) : List (Projection × Value) :=
  orders.filterMap fun
    | .tuple _ [key, ascending] => some (.selected key, ascending)
    | _ => none

/-- The step an operation adds to the configuration of a stream of this query type. -/
def step? (queryType : Value) : Fluent → Option Step
  | filter predicate => some (.filter queryType (.selected predicate))
  | peek f => some (.peek f)
  | bind r f => some (.bind r (if f.isNull then .whole else .selected f))
  | distinct => some .distinct
  | orderBy target ascending => some (.sort (.keys [(.expressed target, ascending)]))
  | orderByAttributes orders => some (.sort (.keys (orderPairs orders)))
  | orderByListed f => some (.sort (.listed f))
  | groupBy target => some (.group (.key (.expressed target)))
  | groupByListed f => some (.group (.listed f))
  | having predicate => some (.having (.selected predicate))
  | addRoot r entity => some (.addRoot r entity)
  | join key outer => some (.join key outer)
  | map target => some (.map (.selected target))
  | count => some .count
  | limit _ => some (.bounded .limit)
  | skip _ => some (.bounded .skip)
  | withParams _ | withOptions _ => none

/-- The steps a list of operations adds. -/
def steps (queryType : Value) (ops : List Fluent) : List Step := ops.filterMap (step? queryType)

theorem steps_append (queryType : Value) (ops more : List Fluent) :
    steps queryType (ops ++ more) = steps queryType ops ++ steps queryType more :=
  List.filterMap_append

end Fluent

/-! ### Selectors -/

theorem exec_selector {what : String} {target : Value} {m m' : Machine} {p : Projection}
    (h : exec (selector what target) m = (.ok p, m')) : p = .selected target := by
  replace h := (exec_guarded_eq_ok.mp h).2
  split at h
  · simp_all [Projection.selected]
  · simp_all [Projection.selected]
  · rename_i v notText notMember
    split at h
    · simp only [exec_pure, Prod.mk.injEq, Except.ok.injEq] at h
      rw [← h.1]
      simp_all [Projection.selected]
    · obtain ⟨c, m₁, _, h⟩ := exec_bind_eq_ok.mp h
      simp at h

theorem exec_expressionSelector {what : String} {target : Value} {m m' : Machine}
    {p : Projection} (h : exec (expressionSelector what target) m = (.ok p, m')) :
    p = .expressed target := by
  unfold expressionSelector at h
  split at h
  · simp_all [Projection.expressed]
  · rw [exec_selector h]
    simp_all [Projection.expressed]

theorem exec_requireUnbound {r r' : RefId} {m m' : Machine}
    (h : exec (requireUnbound (.ref r)) m = (.ok r', m')) : r' = r := by
  unfold requireUnbound at h
  rw [exec_bind_of_ok (exec_isBound r m)] at h
  obtain ⟨_, h⟩ := exec_else_eq_ok.mp h
  simp_all

theorem exec_orderKeys {position : Nat} {orders : List Value} {m m' : Machine}
    {keys : List (Projection × Value)}
    (h : exec (Stream.orderKeys position orders) m = (.ok keys, m')) :
    keys = Fluent.orderPairs orders := by
  fun_induction Stream.orderKeys position orders generalizing m m' keys with
  | case1 position => simp_all [Fluent.orderPairs]
  | case2 position _ key ascending rest ih =>
    obtain ⟨p, m₁, hp, h⟩ := exec_bind_eq_ok.mp h
    obtain ⟨later, m₂, hl, h⟩ := exec_bind_eq_ok.mp h
    have first := exec_selector hp
    have others := ih hl
    simp_all [Fluent.orderPairs]
  | case3 position _ _ _ => simp at h

/-! ### Operations -/

/-- One step more is run after all that was configured before. -/
theorem configure_extend {v v' : Value} {step : Step} {m m' : Machine}
    (h : exec (Configurer.extend v step) m = (.ok v', m')) (call : Call) (builder query : Value) :
    configure call v' builder query = (do
      let selection ← configure call v builder query
      step.apply call builder query selection) := by
  unfold Configurer.extend at h
  rw [exec_bind_of_ok (exec_fresh m)] at h
  split at h
  · obtain ⟨rfl, -⟩ := exec_pure_eq_ok.mp h
    simp only [configure, Configurer.run, Step.applyAll_append, bind_assoc, Step.applyAll,
      bind_pure]
  · rename_i f notConfigurer
    obtain ⟨rfl, -⟩ := exec_pure_eq_ok.mp h
    have start : configure call v builder query = call v [builder, query] := by
      unfold configure
      split
      · rename_i c
        exact absurd rfl (notConfigurer c)
      · rfl
    simp only [start]
    simp only [configure, Configurer.run, Origin.select, Step.applyAll, bind_pure]

namespace Stream

/-- `t` goes on from `s` by some steps: it builds the same kind of query from the same start. -/
structure Continues (s : Stream) (steps : List Step) (t : Stream) : Prop where
  queryType : t.queryType = s.queryType
  session : t.session = s.session
  configurer : ∀ c, s.configurer = .configurer c →
    ∃ id, t.configurer = .configurer { c with id, steps := c.steps ++ steps }
  runs : ∀ call builder query, configure call t.configurer builder query = (do
    let selection ← configure call s.configurer builder query
    Step.applyAll call builder query selection steps)

namespace Continues

variable {s t u : Stream} {xs ys : List Step}

theorem refl (s : Stream) : s.Continues [] s := by
  refine ⟨rfl, rfl, fun c hc => ⟨c.id, ?_⟩, fun call builder query => ?_⟩
  · rw [List.append_nil, hc]
    cases c
    rfl
  · simp only [Step.applyAll, bind_pure]

theorem trans (hst : s.Continues xs t) (htu : t.Continues ys u) : s.Continues (xs ++ ys) u where
  queryType := htu.queryType.trans hst.queryType
  session := htu.session.trans hst.session
  configurer c hc := by
    obtain ⟨id, ht⟩ := hst.configurer c hc
    obtain ⟨id', hu⟩ := htu.configurer _ ht
    exact ⟨id', by simpa using hu⟩
  runs call builder query := by
    simp only [htu.runs, hst.runs, Step.applyAll_append, bind_assoc]

end Continues

theorem exec_extend {s t : Stream} {step : Step} {m m' : Machine}
    (h : exec (s.extend step) m = (.ok t, m')) : s.Continues [step] t := by
  obtain ⟨v, m₁, hv, h⟩ := exec_bind_eq_ok.mp h
  obtain ⟨id, m₂, _, h⟩ := exec_bind_eq_ok.mp h
  obtain ⟨rfl, rfl⟩ := exec_pure_eq_ok.mp h
  refine ⟨rfl, rfl, fun c hc => ?_, fun call builder query => ?_⟩
  · rw [hc, Configurer.extend, exec_bind_of_ok (exec_fresh m)] at hv
    simp only [exec_pure, Prod.mk.injEq, Except.ok.injEq] at hv
    exact ⟨m.next, hv.1.symm⟩
  · simp only [configure_extend hv, Step.applyAll, bind_pure]

theorem isSet_unset : Bound.unset.isSet = false := by decide +kernel

/-- The structure of a query is not frozen as long as no row bound was set. -/
theorem exec_requireUnbounded {s : Stream} (hf : s.firstResult = .unset)
    (hm : s.maxResults = .unset) (operation : String) (m : Machine) :
    exec (s.requireUnbounded operation) m = (.ok (), m) := by
  simp [requireUnbounded, hf, hm, isSet_unset]

/-- What a filter selects by filters a stream without row bounds. -/
theorem exec_filter_unbounded {s : Stream} (hf : s.firstResult = .unset) (hm : s.maxResults = .unset)
    {predicate : Value} {p : Projection} {m : Machine}
    (selected : exec (selector "predicate" predicate) m = (.ok p, m)) :
    exec (s.filter predicate) m = exec (s.extend (.filter s.queryType p)) m := by
  unfold filter
  rw [exec_bind_of_ok selected, exec_bind_of_ok (exec_requireUnbounded hf hm _ _)]

theorem exec_filter_closure {s : Stream} (hf : s.firstResult = .unset) (hm : s.maxResults = .unset)
    (c : Closure) (m : Machine) :
    exec (s.filter (.closure c)) m =
      exec (s.extend (.filter s.queryType (.function (.closure c)))) m :=
  exec_filter_unbounded hf hm rfl

theorem exec_extend_unbounded {s t : Stream} {operation : String} {step : Step} {m m' : Machine}
    (h : exec (do s.requireUnbounded operation; s.extend step) m = (.ok t, m')) :
    s.Continues [step] t := by
  obtain ⟨_, m₁, _, h⟩ := exec_bind_eq_ok.mp h
  exact exec_extend h

end Stream

/-- An operation that succeeds adds its own step and nothing else. -/
theorem Fluent.apply_continues {op : Fluent} {s t : Stream} {m m' : Machine}
    (h : exec (op.apply s) m = (.ok t, m')) :
    s.Continues (op.step? s.queryType).toList t := by
  cases op with
  | filter predicate =>
    obtain ⟨p, m₁, hp, h⟩ := exec_bind_eq_ok.mp h
    rw [exec_selector hp] at h
    exact Stream.exec_extend_unbounded h
  | peek f => exact Stream.exec_extend (exec_guarded_eq_ok.mp h).2
  | bind r f =>
    unfold apply Stream.bind at h
    replace h := (exec_guarded_eq_ok.mp h).2
    dsimp only at h
    split at h
    · rename_i hf
      obtain ⟨p, m₁, hp, h⟩ := exec_bind_eq_ok.mp h
      obtain ⟨r', m₂, hr, h⟩ := exec_bind_eq_ok.mp h
      simp only [exec_pure, Prod.mk.injEq, Except.ok.injEq] at hp
      rw [exec_requireUnbound hr, ← hp.1] at h
      simpa [step?, hf] using Stream.exec_extend h
    · rename_i hf
      obtain ⟨p, m₁, hp, h⟩ := exec_bind_eq_ok.mp h
      obtain ⟨r', m₂, hr, h⟩ := exec_bind_eq_ok.mp h
      rw [exec_requireUnbound hr, exec_selector hp] at h
      simpa [step?, hf] using Stream.exec_extend h
  | distinct => exact Stream.exec_extend_unbounded h
  | orderBy target ascending =>
    obtain ⟨p, m₁, hp, h⟩ := exec_bind_eq_ok.mp h
    rw [exec_expressionSelector hp] at h
    exact Stream.exec_extend_unbounded h
  | orderByAttributes orders =>
    replace h := (exec_guarded_eq_ok.mp h).2
    obtain ⟨keys, m₁, hk, h⟩ := exec_bind_eq_ok.mp h
    rw [exec_orderKeys hk] at h
    exact Stream.exec_extend_unbounded h
  | orderByListed f =>
    replace h := (exec_guarded_eq_ok.mp h).2
    exact Stream.exec_extend_unbounded h
  | groupBy target =>
    obtain ⟨p, m₁, hp, h⟩ := exec_bind_eq_ok.mp h
    rw [exec_expressionSelector hp] at h
    exact Stream.exec_extend_unbounded h
  | groupByListed f =>
    replace h := (exec_guarded_eq_ok.mp h).2
    exact Stream.exec_extend_unbounded h
  | having predicate =>
    obtain ⟨p, m₁, hp, h⟩ := exec_bind_eq_ok.mp h
    rw [exec_selector hp] at h
    exact Stream.exec_extend_unbounded h
  | addRoot r entity =>
    unfold apply Stream.addRoot at h
    replace h := (exec_guarded_eq_ok.mp (exec_guarded_eq_ok.mp h).2).2
    obtain ⟨r', m₁, hr, h⟩ := exec_bind_eq_ok.mp h
    rw [exec_requireUnbound hr] at h
    exact Stream.exec_extend_unbounded h
  | join key outer =>
    replace h := (exec_guarded_eq_ok.mp h).2
    exact Stream.exec_extend_unbounded h
  | map target =>
    obtain ⟨p, m₁, hp, h⟩ := exec_bind_eq_ok.mp h
    rw [exec_selector hp] at h
    exact Stream.exec_extend h
  | count => exact Stream.exec_extend h
  | limit n =>
    obtain ⟨x, m₁, _, h⟩ := exec_bind_eq_ok.mp h
    obtain ⟨u, m₂, hu, h⟩ := exec_bind_eq_ok.mp h
    obtain ⟨rfl, -⟩ := exec_pure_eq_ok.mp h
    have hc := Stream.exec_extend hu
    exact ⟨hc.queryType, hc.session, hc.configurer, hc.runs⟩
  | skip n =>
    obtain ⟨x, m₁, _, h⟩ := exec_bind_eq_ok.mp h
    dsimp only at h
    split at h
    all_goals
      obtain ⟨y, m₂, _, h⟩ := exec_bind_eq_ok.mp h
      obtain ⟨u, m₃, hu, h⟩ := exec_bind_eq_ok.mp h
      obtain ⟨rfl, -⟩ := exec_pure_eq_ok.mp h
      have hc := Stream.exec_extend hu
      exact ⟨hc.queryType, hc.session, hc.configurer, hc.runs⟩
  | withParams params =>
    obtain ⟨_, m₁, _, h⟩ := exec_bind_eq_ok.mp h
    obtain ⟨id, m₂, _, h⟩ := exec_bind_eq_ok.mp h
    obtain ⟨rfl, -⟩ := exec_pure_eq_ok.mp h
    exact ⟨rfl, rfl, (Stream.Continues.refl s).configurer, (Stream.Continues.refl s).runs⟩
  | withOptions options =>
    obtain ⟨id, m₁, _, h⟩ := exec_bind_eq_ok.mp h
    obtain ⟨rfl, -⟩ := exec_pure_eq_ok.mp h
    exact ⟨rfl, rfl, (Stream.Continues.refl s).configurer, (Stream.Continues.refl s).runs⟩

/-! ### Chains -/

namespace Stream

/-- `t` came from `s` by these operations. Between one and the next the machine may be any. -/
inductive Chain (s : Stream) : List Fluent → Stream → Prop
  | nil : Chain s [] s
  | snoc {ops op t u m m'} : Chain s ops t → exec (op.apply t) m = (.ok u, m') →
      Chain s (ops ++ [op]) u

theorem Chain.continues {s t : Stream} {ops : List Fluent} (h : s.Chain ops t) :
    s.Continues (Fluent.steps s.queryType ops) t := by
  induction h with
  | nil => exact .refl s
  | snoc chain apply ih =>
    rename_i ops op t u m m'
    have last := Fluent.apply_continues apply
    rw [ih.queryType] at last
    rw [Fluent.steps_append]
    have single : Fluent.steps s.queryType [op] = (op.step? s.queryType).toList := by
      unfold Fluent.steps
      cases h : op.step? s.queryType <;> simp [h]
    rw [single]
    exact ih.trans last

/-- A stream over an entity starts from its root and has no steps yet. -/
theorem exec_ofEntity {purpose : Purpose} {session entity : Value} {s : Stream} {m m' : Machine}
    (h : exec (ofEntity purpose session entity) m = (.ok s, m')) :
    entity.isNull = false ∧ (∃ id, s.queryType = .queryType ⟨id, purpose, entity⟩) ∧
      ∃ id, s.configurer = .configurer ⟨id, .root entity, []⟩ := by
  obtain ⟨he, h⟩ := exec_guarded_eq_ok.mp h
  obtain ⟨t, m₁, ht, h⟩ := exec_bind_eq_ok.mp h
  replace ht := (exec_guarded_eq_ok.mp ht).2
  obtain ⟨id, m₂, _, ht⟩ := exec_bind_eq_ok.mp ht
  obtain ⟨id', m₃, _, h⟩ := exec_bind_eq_ok.mp h
  obtain ⟨id'', m₄, _, h⟩ := exec_bind_eq_ok.mp h
  simp only [exec_pure, Prod.mk.injEq, Except.ok.injEq] at h ht
  obtain ⟨⟨rfl, -⟩, ⟨rfl, -⟩⟩ := And.intro h ht
  exact ⟨by simpa using he, ⟨id, rfl⟩, ⟨id', rfl⟩⟩

end Stream

end FluentQuery
