import FluentQuery.Proofs.Fields
import FluentQuery.Proofs.Spellings.Steps

/-! Chains that differ in one operation. The nodes they lead to differ in their configurations alone,
and a build sees no more of a configuration than what it does with the query of the build. -/

namespace FluentQuery

/-! ### Nodes but for their configuration -/

/-- `t` is `s` but for its number and its configuration. -/
def Stream.Twin (s t : Stream) : Prop := ∃ id configurer, t = { s with id, configurer }

namespace Stream

variable {s t u : Stream}

namespace Twin

theorem refl (s : Stream) : s.Twin s := ⟨s.id, s.configurer, by cases s; rfl⟩

theorem of_fields (kind : t.kind = s.kind) (session : t.session = s.session)
    (queryType : t.queryType = s.queryType) (first : t.firstResult = s.firstResult)
    (max : t.maxResults = s.maxResults) (params : t.params = s.params)
    (options : t.options = s.options) : s.Twin t := by
  refine ⟨t.id, t.configurer, ?_⟩
  rw [← kind, ← session, ← queryType, ← first, ← max, ← params, ← options]
  cases t
  rfl

/-- The text of a node does not tell of its configuration. -/
theorem shownNow (h : s.Twin t) : shownNow (.stream t) = shownNow (.stream s) := by
  obtain ⟨id, configurer, rfl⟩ := h
  have text (m : Machine) :
      (Value.stream { s with id, configurer }).shown? m = (Value.stream s).shown? m :=
    shown?_congr m rfl rfl rfl rfl
  unfold FluentQuery.shownNow
  simp only [text]

theorem report (h : s.Twin t) : t.report = s.report := by
  funext built
  unfold Stream.report
  rw [h.shownNow]

theorem logCompiled (h : s.Twin t) : t.logCompiled = s.logCompiled := by
  funext q
  unfold Stream.logCompiled
  rw [h.shownNow]

end Twin

/-- Chains of operations that set the same bounds, parameters and options lead to the same node but
for its configuration. -/
theorem Chained.twin {ops ops' : List StreamOp} (chain : u.Chained ops s) (other : u.Chained ops' t)
    (skips : StreamOp.skips ops' = StreamOp.skips ops)
    (limits : StreamOp.limits ops' = StreamOp.limits ops)
    (params : ops'.flatMap StreamOp.params = ops.flatMap StreamOp.params)
    (options : ops'.flatMap StreamOp.options = ops.flatMap StreamOp.options) : s.Twin t := by
  obtain ⟨-, first, max⟩ := chain.bounds_eq
  obtain ⟨-, first', max'⟩ := other.bounds_eq
  rw [skips, first] at first'
  refine .of_fields ?_ ?_ ?_ (Option.some.inj first').symm ?_ ?_ ?_
  · rw [other.kind_eq.1, chain.kind_eq.1]
  · rw [other.continues.session, chain.continues.session]
  · rw [other.continues.queryType, chain.continues.queryType]
  · rw [max', max, limits]
  · rw [other.params_eq, chain.params_eq, params]
  · rw [other.kind_eq.2, chain.kind_eq.2, options]

end Stream

/-! ### Going on alike -/

/-- Wherever `x` makes a stream, `y` makes the same but for its configuration, and leaves the same
machine. -/
def Parallel (x y : Run Stream) : Prop :=
  ∀ ⦃m s n⦄, exec x m = (.ok s, n) → ∃ t, exec y m = (.ok t, n) ∧ s.Twin t

namespace Parallel

variable {α : Type} {s t : Stream}

theorem bind {x y : Run α} {f g : α → Run Stream}
    (h : ∀ ⦃m a n⦄, exec x m = (.ok a, n) → ∃ b, exec y m = (.ok b, n) ∧ Parallel (f a) (g b)) :
    Parallel (x >>= f) (y >>= g) := by
  intro m u n hu
  obtain ⟨a, m₁, ha, hu⟩ := exec_bind_eq_ok.mp hu
  obtain ⟨b, hb, parallel⟩ := h ha
  obtain ⟨v, hv, twin⟩ := parallel hu
  exact ⟨v, (exec_bind_of_ok hb _).trans hv, twin⟩

theorem behind {f g : α → Run Stream} (x : Run α) (h : ∀ a, Parallel (f a) (g a)) :
    Parallel (x >>= f) (x >>= g) :=
  bind fun _ a _ ha => ⟨a, ha, h a⟩

theorem guarded {c : Prop} [Decidable c] {e : Error} {k l : PUnit → Run Stream} {x y : Run Stream}
    (h : Parallel x y) :
    Parallel (if c then FluentQuery.fail e >>= k else x)
      (if c then FluentQuery.fail e >>= l else y) := by
  intro m u n hu
  obtain ⟨hc, hu⟩ := exec_guarded_eq_ok.mp hu
  rw [if_neg hc]
  exact h hu

theorem pure_of (h : s.Twin t) : Parallel (pure s) (pure t) := by
  intro m u n hu
  obtain ⟨rfl, rfl⟩ := exec_pure_eq_ok.mp hu
  exact ⟨t, rfl, h⟩

/-- A configuration can always be extended. -/
theorem extend_with {step step' : Step} (h : s.Twin t) {f : Stream → Stream}
    (hf : ∀ {s t : Stream}, s.Twin t → (f s).Twin (f t)) :
    Parallel (do return f (← s.extend step)) (do return f (← t.extend step')) := by
  obtain ⟨id, configurer, rfl⟩ := h
  intro m u n hu
  obtain ⟨v, m₁, hv, hu⟩ := exec_bind_eq_ok.mp hu
  obtain ⟨rfl, rfl⟩ := exec_pure_eq_ok.mp hu
  obtain ⟨c, m₂, hc, hv⟩ := exec_bind_eq_ok.mp hv
  obtain ⟨i, m₃, hi, hv⟩ := exec_bind_eq_ok.mp hv
  obtain ⟨rfl, rfl⟩ := exec_pure_eq_ok.mp hv
  have extended : ∃ c', exec (Configurer.extend configurer step') m = (.ok c', m₂) := by
    unfold Configurer.extend at hc ⊢
    rw [exec_bind_of_ok (exec_fresh m)] at hc ⊢
    have left : m₂ = { m with next := m.next + 1 } := by
      split at hc <;> exact (exec_pure_eq_ok.mp hc).2.symm
    subst left
    split <;> exact ⟨_, rfl⟩
  obtain ⟨c', hc'⟩ := extended
  refine ⟨f { s with id := i, configurer := c' }, ?_, hf ⟨i, c', rfl⟩⟩
  unfold Stream.extend
  rw [bind_assoc, exec_bind_of_ok hc', bind_assoc, exec_bind_of_ok hi]
  rfl

theorem extend {step step' : Step} (h : s.Twin t) : Parallel (s.extend step) (t.extend step') := by
  simpa only [bind_pure] using extend_with h (f := fun s => s) fun h => h

theorem extend_unbounded {operation : String} {step step' : Step} (h : s.Twin t) :
    Parallel (do s.requireUnbounded operation; s.extend step)
      (do t.requireUnbounded operation; t.extend step') := by
  obtain ⟨id, configurer, rfl⟩ := h
  exact .behind _ fun _ => .extend ⟨id, configurer, rfl⟩

end Parallel

/-- An operation does not look at the configuration of a stream. -/
theorem StreamOp.apply_parallel {s t : Stream} (op : StreamOp) (h : s.Twin t) :
    Parallel (op.apply s) (op.apply t) := by
  obtain ⟨id, configurer, rfl⟩ := h
  have twin : s.Twin { s with id, configurer } := ⟨id, configurer, rfl⟩
  cases op with
  | assign key v => exact .guarded (.extend_unbounded twin)
  | fluent op =>
    cases op with
    | filter predicate => exact .behind _ fun p => .extend_unbounded twin
    | peek f => exact .guarded (.extend twin)
    | bind r f =>
      change Parallel (s.bind (.ref r) f) (Stream.bind _ (.ref r) f)
      unfold Stream.bind
      refine .guarded ?_
      dsimp only
      split <;> exact .behind _ fun p => .behind _ fun r => .extend twin
    | distinct => exact .extend_unbounded twin
    | orderBy target ascending => exact .behind _ fun p => .extend_unbounded twin
    | orderByAttributes orders => exact .guarded (.behind _ fun keys => .extend_unbounded twin)
    | orderByListed f => exact .guarded (.extend_unbounded twin)
    | groupBy target => exact .behind _ fun p => .extend_unbounded twin
    | groupByListed f => exact .guarded (.extend_unbounded twin)
    | having predicate => exact .behind _ fun p => .extend_unbounded twin
    | addRoot r entity =>
      change Parallel (s.addRoot (.ref r) entity) (Stream.addRoot _ (.ref r) entity)
      unfold Stream.addRoot
      exact .guarded (.guarded (.behind _ fun r => .extend_unbounded twin))
    | join key outer => exact .guarded (.extend_unbounded twin)
    | map target => exact .behind _ fun p => .extend twin
    | count => exact .extend twin
    | limit n =>
      refine .behind _ fun x => .extend_with twin fun h => ?_
      obtain ⟨i, c, rfl⟩ := h
      exact ⟨i, c, rfl⟩
    | skip n =>
      refine .behind _ fun x => ?_
      dsimp only
      split
      all_goals
        refine .behind _ fun y => .extend_with twin fun h => ?_
        obtain ⟨i, c, rfl⟩ := h
        exact ⟨i, c, rfl⟩
    | withParams params =>
      exact .behind _ fun _ => .behind _ fun i => .pure_of ⟨i, configurer, rfl⟩
    | withOptions options => exact .behind _ fun i => .pure_of ⟨i, configurer, rfl⟩

namespace Stream

variable {s t u : Stream} {op op' : StreamOp} {ops : List StreamOp} {m n : Machine}

theorem Chained.cons (first : exec (op.apply s) m = (.ok t, n)) (rest : t.Chained ops u) :
    s.Chained (op :: ops) u := by
  induction rest with
  | nil => exact Chained.nil.snoc first
  | snoc _ applied ih => exact ih.snoc applied

/-- A stream without row bounds can take one more step. -/
theorem chained_of_extend {c : Configurer} {step : Step} {operation : String}
    (hc : s.configurer = .configurer c) (first : s.firstResult = .unset) (max : s.maxResults = .unset)
    (h : op.apply s = do s.requireUnbounded operation; s.extend step) (id : Nat) :
    s.Chained [op]
      { s with id := id + 1, configurer := .configurer ⟨id, c.origin, c.steps ++ [step]⟩ } := by
  let m : Machine := { Machine.start ⟨false, false, false⟩ with next := id }
  suffices applied : exec (op.apply s) m = (.ok _, { m with next := id + 2 }) from
    Chained.nil.snoc applied
  rw [h, exec_bind_of_ok (exec_requireUnbounded first max operation m), Stream.extend, hc]
  rfl

/-- What can be put together from a node, can be put together from one with another configuration. -/
theorem Chained.exists_twin (chain : s.Chained ops u) (h : s.Twin t) :
    ∃ v, t.Chained ops v ∧ u.Twin v := by
  induction chain with
  | nil => exact ⟨t, .nil, h⟩
  | snoc _ applied ih =>
    obtain ⟨v, chained, twin⟩ := ih
    obtain ⟨w, again, twin'⟩ := StreamOp.apply_parallel _ twin applied
    exact ⟨w, chained.snoc again, twin'⟩

/-- A chain that begins with one operation can begin with another that is accepted where that is. -/
theorem Chained.exists_respelled (parallel : Parallel (op.apply s) (op'.apply s))
    (chain : s.Chained (op :: ops) t) : ∃ t', s.Chained (op' :: ops) t' := by
  obtain ⟨u, m, n, first, rest⟩ := chain.exists_first
  obtain ⟨u', first', twin⟩ := parallel first
  obtain ⟨t', rest', -⟩ := rest.exists_twin twin
  exact ⟨t', rest'.cons first'⟩

end Stream

/-! ### Accepted spellings -/

/-- An attribute or a function of the selection. -/
def Value.isSelector : Value → Bool
  | .text .. | .member _ => true
  | v => v.isCallable

section Accepted

variable {v v' : Value}

theorem Names.isSelector {key : String} (h : Names key v) : v.isSelector := by
  cases h <;> rfl

theorem Spells.isSelector {call : Call} {key : String} (h : Spells call key v) : v.isSelector := by
  cases h with
  | name h => exact h.isSelector
  | function => rfl

theorem Value.isSelector_isNull (h : v.isSelector) : v.isNull = false := by
  cases v <;> first | rfl | cases h

theorem Value.isSelector_expressed (h : v.isSelector) :
    Projection.expressed v = .selected v := by
  cases v <;> first | rfl | cases h

theorem selector_eq (h : v.isSelector) (what : String) : selector what v = pure (.selected v) := by
  have notNull := Value.isSelector_isNull h
  unfold selector
  simp only [notNull, Bool.false_eq_true, ↓reduceIte]
  cases v with
  | text | member => rfl
  | closure | configurer => rfl
  | mapped e =>
    have callable : (Value.mapped e).isCallable = true := h
    simp only [callable, ↓reduceIte]
    rfl
  | _ => cases h

theorem expressionSelector_eq (h : v.isSelector) (what : String) :
    expressionSelector what v = pure (.selected v) := by
  rw [← selector_eq h what]
  cases v <;> first | rfl | cases h

/-- A list of keys is accepted whichever selector stands in one of them. -/
theorem exec_orderKeys_respelled {id position : Nat} {before after : List Value} {ascending : Value}
    {keys : List (Projection × Value)} {m n : Machine} (hv : v.isSelector) (hv' : v'.isSelector)
    (h : exec (Stream.orderKeys position (before ++ .tuple id [v, ascending] :: after)) m =
      (.ok keys, n)) :
    ∃ keys', exec (Stream.orderKeys position (before ++ .tuple id [v', ascending] :: after)) m =
      (.ok keys', n) := by
  induction before generalizing position keys m with
  | nil =>
    rw [List.nil_append, Stream.orderKeys, selector_eq hv, pure_bind] at h
    obtain ⟨later, m₁, hl, h⟩ := exec_bind_eq_ok.mp h
    obtain ⟨-, rfl⟩ := exec_pure_eq_ok.mp h
    rw [List.nil_append, Stream.orderKeys, selector_eq hv', pure_bind]
    exact ⟨_, exec_bind_of_ok hl _⟩
  | cons order before ih =>
    rw [List.cons_append] at h ⊢
    generalize hall : before ++ Value.tuple id [v, ascending] :: after = rest at h
    unfold Stream.orderKeys at h
    split at h
    · rename_i none
      cases none
    · rename_i tuple key direction others split
      obtain ⟨rfl, rfl⟩ := List.cons.inj split
      obtain ⟨p, m₁, hp, h⟩ := exec_bind_eq_ok.mp h
      obtain ⟨later, m₂, hl, h⟩ := exec_bind_eq_ok.mp h
      obtain ⟨-, rfl⟩ := exec_pure_eq_ok.mp h
      obtain ⟨later', hl'⟩ := ih (hall ▸ hl)
      rw [Stream.orderKeys, exec_bind_of_ok hp]
      exact ⟨_, exec_bind_of_ok hl' _⟩
    · cases h

namespace Stream

variable {s : Stream} {ascending : Value}

/-- A place accepts any attribute and any function. -/
theorem parallel_places (p : Place) (hv : v.isSelector) (hv' : v'.isSelector) :
    Parallel ((p.op v).apply s) ((p.op v').apply s) := by
  have twin : s.Twin s := .refl s
  cases p with
  | filter =>
    change Parallel (s.filter v) (s.filter v')
    simp only [Stream.filter, selector_eq hv, selector_eq hv', pure_bind]
    exact .extend_unbounded twin
  | having =>
    change Parallel (s.having v) (s.having v')
    simp only [Stream.having, selector_eq hv, selector_eq hv', pure_bind]
    exact .extend_unbounded twin
  | map =>
    change Parallel (s.map v) (s.map v')
    simp only [Stream.map, selector_eq hv, selector_eq hv', pure_bind]
    exact .extend twin
  | groupBy =>
    change Parallel (s.groupBy v) (s.groupBy v')
    simp only [Stream.groupBy, expressionSelector_eq hv, expressionSelector_eq hv', pure_bind]
    exact .extend_unbounded twin
  | bind r =>
    change Parallel (s.bind (.ref r) v) (s.bind (.ref r) v')
    simp only [Stream.bind, selector_eq hv, selector_eq hv', Value.isSelector_isNull hv,
      Value.isSelector_isNull hv', Bool.false_eq_true, ↓reduceIte, pure_bind]
    exact .guarded (.behind _ fun r => .extend twin)
  | orderBy ascending =>
    change Parallel (s.orderBy v ascending) (s.orderBy v' ascending)
    simp only [Stream.orderBy, expressionSelector_eq hv, expressionSelector_eq hv', pure_bind]
    exact .extend_unbounded twin
  | orderByAttributes before id ascending after =>
    have some (w : Value) : (before ++ .tuple id [w, ascending] :: after).isEmpty = false := by simp
    change Parallel (s.orderByAttributes _) (s.orderByAttributes _)
    simp only [Stream.orderByAttributes, some, Bool.false_eq_true, ↓reduceIte]
    refine .bind fun m keys n read => ?_
    obtain ⟨keys', read'⟩ := exec_orderKeys_respelled hv hv' read
    exact ⟨keys', read', .extend_unbounded twin⟩
  | join outer =>
    change Parallel (s.join v outer) (s.join v' outer)
    simp only [Stream.join, Value.isSelector_isNull hv, Value.isSelector_isNull hv',
      Bool.false_eq_true, ↓reduceIte]
    exact .extend_unbounded twin

end Stream

end Accepted

end FluentQuery
