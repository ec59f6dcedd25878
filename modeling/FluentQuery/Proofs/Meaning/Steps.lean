import FluentQuery.Proofs.Meaning.Entries

/-! What one step of a chain does. It says one thing about the query, reads it off the
selection it starts with, and leaves everything else about the query and every bound Ref
as it was, provided that its callables do. -/

namespace FluentQuery

/-- The machine after a step has run its callables and read its attributes. -/
def Step.evaluated (call : Call) (builder v : Value) (m : Machine) : Step → Machine
  | filter _ p | bind _ p | having p | map p => after (p.read call v) m
  | peek f => after (call f [v]) m
  | sort o => after (o.clauses call builder v) m
  | group g => after (g.clauses call v) m
  | _ => m

/-- The context at `c` was `x` and became `y` by being told the entries. Bound Refs hold what they
held, Refs named by an entry are bound to what it says, and new aliases have numbers of their own. -/
structure Told (c : ContextId) (x : Context) (m : Machine) (es : List Entry) (y : Context)
    (m' : Machine) : Prop where
  context : m'.context? c = some y
  restriction : Conjoined x.restriction (es.filterMap Entry.condition?) y.restriction
  kind : ∀ b orders, x.kind = .query b orders →
    y.kind = .query (es.foldl Entry.tell b) ((es.filterMap Entry.order?).getLastD orders)
  ref : ∀ r v, m.ref? r = some v → m'.ref? r = some v
  bound : ∀ r v, (r, v) ∈ es.filterMap Entry.bound? → r.index < m.refs.length →
    m'.ref? r = some v
  growing : Growing m m'
  ordered : (es.filterMap Entry.number?).Pairwise (· < ·)
  fresh : ∀ n ∈ es.filterMap Entry.number?, m.next ≤ n ∧ n < m'.next

namespace Told

variable {c : ContextId} {x y z : Context} {m m₁ m' : Machine} {es fs : List Entry} {e : Entry}

theorem nil (hx : m.context? c = some x) : Told c x m [] x m where
  context := hx
  restriction := .nil
  kind _ _ h := h
  ref _ _ h := h
  bound _ _ h := by simp at h
  growing := Inert.refl m
  ordered := .nil
  fresh _ h := by simp at h

theorem append (hxy : Told c x m es y m₁) (hyz : Told c y m₁ fs z m') :
    Told c x m (es ++ fs) z m' where
  context := hyz.context
  restriction := by
    rw [List.filterMap_append]
    exact hxy.restriction.append hyz.restriction
  kind b orders h := by
    rw [hyz.kind _ _ (hxy.kind b orders h), List.foldl_append, List.filterMap_append]
    simp only [List.getLastD_eq_getLast?, List.getLast?_append, Option.getD_or]
  ref r v h := hyz.ref r v (hxy.ref r v h)
  bound r v h hr := by
    rw [List.filterMap_append, List.mem_append] at h
    rcases h with h | h
    · exact hyz.ref r v (hxy.bound r v h hr)
    · exact hyz.bound r v h (Nat.lt_of_lt_of_le hr hxy.growing.refs)
  growing := Inert.trans hxy.growing hyz.growing
  ordered := by
    rw [List.filterMap_append]
    refine List.pairwise_append.mpr ⟨hxy.ordered, hyz.ordered, fun i hi j hj => ?_⟩
    exact Nat.lt_of_lt_of_le (hxy.fresh i hi).2 (hyz.fresh j hj).1
  fresh n h := by
    rw [List.filterMap_append, List.mem_append] at h
    have := hxy.growing.next
    have := hyz.growing.next
    rcases h with h | h
    · have := hxy.fresh n h
      omega
    · have := hyz.fresh n h
      omega

theorem single (context : m'.context? c = some y)
    (restriction : Conjoined x.restriction e.condition?.toList y.restriction)
    (kind : ∀ b orders, x.kind = .query b orders →
      y.kind = .query (e.tell b) (e.order?.getD orders))
    (ref : ∀ r v, m.ref? r = some v → m'.ref? r = some v)
    (bound : ∀ r v, e.bound? = some (r, v) → r.index < m.refs.length → m'.ref? r = some v)
    (growing : Growing m m') (fresh : ∀ n, e.number? = some n → m.next ≤ n ∧ n < m'.next) :
    Told c x m [e] y m' where
  context := context
  restriction := by cases h : e.condition? <;> simpa [h] using restriction
  kind b orders h := by
    rw [kind b orders h]
    cases h : e.order? <;> simp [h]
  ref := ref
  bound r v h := bound r v (by simpa using h)
  growing := growing
  ordered := by cases h : e.number? <;> simp [h]
  fresh n h := fresh n (by simpa using h)

/-- A step that leaves the query alone. -/
theorem still (hx : m.context? c = some x) (hu : Undisturbed m m') (hg : Growing m m')
    (hc : e.condition? = none) (ho : e.order? = none) (ht : ∀ b, e.tell b = b)
    (hb : e.bound? = none) (hn : e.number? = none) : Told c x m [e] x m' := by
  refine single (hu.context c x hx) ?_ ?_ hu.ref ?_ hg ?_
  · rw [hc]
    exact .nil
  · intro b orders h
    rw [ht, ho, h]
    rfl
  · simp [hb]
  · simp [hn]

/-- A step that changes the query and binds nothing. -/
theorem changed {b : SelectBody} {orders : List Value} (hx : m.context? c = some x)
    (hk : x.kind = .query b orders) (hu : Undisturbed m m₁) (hg : Growing m m₁)
    (restriction : Conjoined x.restriction e.condition?.toList y.restriction)
    (kind : y.kind = .query (e.tell b) (e.order?.getD orders)) (hb : e.bound? = none)
    (hn : e.number? = none) :
    Told c x m [e] y { m₁ with contexts := m₁.contexts.set c.index y } := by
  refine single (context?_set (hu.context c x hx) y) restriction ?_ hu.ref ?_
    (Inert.trans hg (Growing.blind m₁ _)) ?_
  · intro b' orders' hk'
    obtain ⟨rfl, rfl⟩ := ContextKind.query.inj (hk.symm.trans hk')
    exact kind
  · simp [hb]
  · simp [hn]

end Told

/-! ### Operations on the query -/

theorem Context.updateBody_query {x : Context} {b : SelectBody} {orders : List Value}
    (hk : x.kind = .query b orders) (f : SelectBody → SelectBody) :
    x.updateBody f = .ok { x with kind := .query (f b) orders } := by
  simp [Context.updateBody, hk, ContextKind.body?, ContextKind.withBody]

theorem exec_conjoin {builder e r : Value} {c : ContextId} {x : Context} {m m' : Machine}
    (hx : m.context? c = some x) (h : exec (conjoin builder c e) m = (.ok r, m'))
    (hr : r.isNull = false) : Conjoined x.restriction [e] r := by
  unfold conjoin at h
  rw [exec_bind_of_ok (exec_readContext_of_some hx)] at h
  dsimp only at h
  split at h
  · rename_i hnull
    obtain ⟨rfl, rfl⟩ := exec_pure_eq_ok.mp h
    have none : x.restriction = .null := by
      cases hv : x.restriction <;> simp_all [Value.isNull]
    rw [none]
    exact .first hr .nil
  · rename_i hnull
    obtain ⟨_, m₁, hb, h⟩ := exec_bind_eq_ok.mp h
    exact .more (by simpa using hnull) h .nil

theorem exec_restrict {c : ContextId} {r : Value} {m m' : Machine} {u : Unit}
    (h : exec (QueryType.restrict (.context c) r) m = (.ok u, m')) :
    r.isNull = false ∧ ∃ x, m.context? c = some x ∧
      m' = { m with contexts := m.contexts.set c.index { x with restriction := r } } := by
  unfold QueryType.restrict at h
  replace h := (exec_guarded_eq_ok.mp h).2
  obtain ⟨hr, h⟩ := exec_guarded_eq_ok.mp h
  rw [exec_bind_of_ok (exec_asContext c m)] at h
  obtain ⟨x, y, hx, hy, rfl⟩ := exec_update_eq_ok.mp h
  rw [Context.restrict, if_neg hr] at hy
  obtain rfl := Except.ok.inj hy
  exact ⟨by simpa using hr, x, hx, rfl⟩

theorem Context.aliasOf?_eq_some {n : Nat} {entity : Value} {m : Mapped}
    (h : Context.aliasOf? n entity = some m) : ∃ target, m = ⟨target, some n⟩ := by
  unfold Context.aliasOf? at h
  split at h <;> simp_all [eq_comm]

theorem exec_requireOutermost {c : ContextId} {x : Context} {b : SelectBody}
    {orders : List Value} {m : Machine} (hx : m.context? c = some x)
    (hk : x.kind = .query b orders) (a : Arranging) :
    exec (requireOutermost (.context c) a) m = (.ok c, m) := by
  unfold requireOutermost
  rw [exec_bind_of_ok (exec_readContext_of_some hx)]
  simp [Context.isQuery, hk]

/-- A further root is a new alias. -/
theorem exec_addRoot {c : ContextId} {x : Context} {b : SelectBody} {orders : List Value}
    {m m' : Machine} {entity root : Value} (hx : m.context? c = some x)
    (hk : x.kind = .query b orders) (hb : b.roots ≠ [])
    (h : exec (c.addRoot entity) m = (.ok root, m')) :
    ∃ target, Context.aliasOf? m.next entity = some ⟨target, some m.next⟩ ∧
      root = .mapped ⟨target, some m.next⟩ ∧
      m' = { m with
        next := m.next + 1
        contexts := m.contexts.set c.index
          { x with kind := .query { b with roots := b.roots ++ [root] } orders } } := by
  unfold ContextId.addRoot at h
  rw [exec_bind_of_ok (exec_readContext_of_some hx)] at h
  simp only [Context.target?, hk] at h
  rw [exec_bind_of_ok (exec_fresh m)] at h
  obtain ⟨x', y, hx', hy, rfl⟩ := exec_updateGet_eq_ok.mp h
  obtain rfl := Option.some.inj (hx.symm.trans hx')
  simp only [Context.addRoot, hk, ContextKind.body?] at hy
  split at hy
  · cases hy
  · split at hy
    · simp_all
    · split at hy
      · cases hy
      · rename_i aliased ha
        rw [Context.updateBody_query hk] at hy
        obtain ⟨rfl, rfl⟩ := Prod.mk.inj (Except.ok.inj hy)
        obtain ⟨target, rfl⟩ := Context.aliasOf?_eq_some ha
        exact ⟨target, ha, rfl, rfl⟩

/-- A join from an entity that is not correlated brings a new alias of the relationship's target. -/
theorem exec_join {c : ContextId} {x : Context} {b : SelectBody} {orders : List Value}
    {m m' : Machine} {v w key outer : Value} (hx : m.context? c = some x)
    (hk : x.kind = .query b orders) (h : exec (c.join v key outer) m = (.ok w, m')) :
    ∃ owner r m₁, exec (resolveRelationship v key) m = (.ok (owner, r), m₁) ∧
      w = .mapped ⟨r.target, some m₁.next⟩ ∧
      m' = { m₁ with
        next := m₁.next + 1
        contexts := m₁.contexts.set c.index { x with kind := .query { b with
          joins := b.joins ++ [⟨owner, r, ⟨r.target, some m₁.next⟩, outer⟩] } orders } } := by
  obtain ⟨x, owner, r, m₁, hx₀, -, hr, -, h⟩ := ContextId.exec_join_eq_ok h
  obtain rfl := Option.some.inj (hx.symm.trans hx₀)
  have hu : Undisturbed m m₁ := (resolveRelationship_keeps _ _).of_exec hr
  unfold ContextId.growJoin at h
  rw [exec_bind_of_ok (exec_fresh m₁), exec_bind_of_ok (exec_get _)] at h
  obtain ⟨x', y, hx', hy, rfl⟩ := exec_updateGet_eq_ok.mp h
  obtain rfl := Option.some.inj ((hu.context c x hx).symm.trans hx')
  have own : x.correlates v = false := by simp [Context.correlates, hk]
  rw [own, Context.join, Context.updateBody_query hk] at hy
  obtain ⟨rfl, rfl⟩ := Prod.mk.inj (Except.ok.inj hy)
  exact ⟨owner, r, m₁, hr, rfl, rfl⟩

namespace Step

variable {call : Call} {builder v w : Value} {c : ContextId} {x : Context} {b : SelectBody}
  {orders : List Value} {d : Bool} {m m' : Machine}

/-- A step says one thing about the query at `c`, and the query becomes what it was told. -/
def Tells (call : Call) (builder : Value) (c : ContextId) (x : Context) (d : Bool) (step : Step)
    (v w : Value) (m m' : Machine) : Prop :=
  ∃ e y, step.Reads call builder m d v e ∧ w = e.selection?.getD v ∧ Told c x m [e] y m'

section Reading

variable (hc : ∀ f args, Keeps Growing (call f args)) (hx : m.context? c = some x)
  (hk : x.kind = .query b orders)

include hc hx hk

theorem filter_tells {queryType : Value} {p : Projection}
    (hq : Undisturbed m (after (p.read call v) m))
    (h : exec ((filter queryType p).apply call builder (.context c) v) m = (.ok w, m')) :
    (filter queryType p).Tells call builder c x d v w m m' := by
  obtain ⟨e, m₁, he, h⟩ := exec_bind_eq_ok.mp h
  rw [after_eq he] at hq
  have hg : Growing m m₁ := (p.read_keeps hc v).of_exec he
  rw [exec_bind_of_ok (exec_asContext c m₁)] at h
  obtain ⟨r, m₂, hr, h⟩ := exec_bind_eq_ok.mp h
  cases queryType with
  | queryType t =>
    obtain ⟨_, m₃, hs, h⟩ := exec_bind_eq_ok.mp h
    obtain ⟨rfl, rfl⟩ := exec_pure_eq_ok.mp h
    obtain ⟨hnull, x', hx', rfl⟩ := exec_restrict hs
    have hj := exec_conjoin (hq.context c x hx) hr hnull
    have hu : Undisturbed m₁ m₂ := (conjoin_keeps _ _ _).of_exec hr
    have hg' : Growing m₁ m₂ := (conjoin_keeps _ _ _).of_exec hr
    rw [hu.context c x (hq.context c x hx), Option.some.injEq] at hx'
    subst hx'
    exact ⟨.condition e, _, .filter he, rfl,
      .changed hx hk (hq.trans hu) (Inert.trans hg hg') hj hk rfl rfl⟩
  | _ => cases h

omit hk in
theorem peek_tells {f : Value} (hq : Undisturbed m (after (call f [v]) m))
    (h : exec ((peek f).apply call builder (.context c) v) m = (.ok w, m')) :
    (peek f).Tells call builder c x d v w m m' := by
  obtain ⟨_, m₁, hf, h⟩ := exec_bind_eq_ok.mp h
  obtain ⟨rfl, rfl⟩ := exec_pure_eq_ok.mp h
  have last : after (call f [v]) m = m₁ := by
    rw [← after_discard, after_eq hf]
  rw [last] at hq
  have hg : Growing m m₁ := last ▸ hc f [v] m
  exact ⟨.aside, x, .peek, rfl, .still hx hq hg rfl rfl (fun _ => rfl) rfl rfl⟩

omit hk in
theorem bind_tells {r : RefId} {p : Projection} (hq : Undisturbed m (after (p.read call v) m))
    (h : exec ((bind r p).apply call builder (.context c) v) m = (.ok w, m')) :
    (bind r p).Tells call builder c x d v w m m' := by
  obtain ⟨u, m₁, hu, h⟩ := exec_bind_eq_ok.mp h
  rw [after_eq hu] at hq
  have hg : Growing m m₁ := (p.read_keeps hc v).of_exec hu
  obtain ⟨_, m₂, hr, h⟩ := exec_bind_eq_ok.mp h
  obtain ⟨rfl, rfl⟩ := exec_pure_eq_ok.mp h
  have hg' : Growing m₁ m₂ := (Creating.bind r u).of_exec hr
  obtain ⟨hnew, rfl⟩ := exec_bindRef_eq_ok.mp hr
  refine ⟨.bound r u, x, .bind hu, rfl, ?_⟩
  refine .single (hq.context c x hx) .nil (fun _ _ hk => hk) ?_ ?_ (Inert.trans hg hg') ?_
  · intro r' v' h
    exact ref?_write_of_bound hnew (hq.ref r' v' h) u
  · intro r' v' h hr
    obtain ⟨rfl, rfl⟩ : r = r' ∧ u = v' := by simpa [Entry.bound?] using h
    exact ref?_write (Nat.lt_of_lt_of_le hr hg.refs) u
  · simp [Entry.number?]

theorem sort_tells {o : Ordering} (hq : Undisturbed m (after (o.clauses call builder v) m))
    (h : exec ((sort o).apply call builder (.context c) v) m = (.ok w, m')) :
    (sort o).Tells call builder c x d v w m m' := by
  unfold apply at h
  rw [exec_bind_of_ok (exec_requireOutermost hx hk .sort)] at h
  obtain ⟨items, m₁, hi, h⟩ := exec_bind_eq_ok.mp h
  rw [after_eq hi] at hq
  have hg : Growing m m₁ := (o.clauses_keeps hc builder v).of_exec hi
  obtain ⟨_, m₂, ho, h⟩ := exec_bind_eq_ok.mp h
  obtain ⟨rfl, rfl⟩ := exec_pure_eq_ok.mp h
  obtain ⟨x', y, hx', hy, rfl⟩ := exec_update_eq_ok.mp ho
  rw [hq.context _ x hx, Option.some.injEq] at hx'
  subst hx'
  simp only [Context.orderBy, hk, Except.ok.injEq] at hy
  subst hy
  exact ⟨.order items, _, .sort hi, rfl, .changed hx hk hq hg .nil rfl rfl rfl⟩

theorem group_tells {g : Grouping} (hq : Undisturbed m (after (g.clauses call v) m))
    (h : exec ((group g).apply call builder (.context c) v) m = (.ok w, m')) :
    (group g).Tells call builder c x d v w m m' := by
  unfold apply at h
  rw [exec_bind_of_ok (exec_requireOutermost hx hk .group)] at h
  obtain ⟨items, m₁, hi, h⟩ := exec_bind_eq_ok.mp h
  rw [after_eq hi] at hq
  have hg : Growing m m₁ := (g.clauses_keeps hc v).of_exec hi
  obtain ⟨_, m₂, ho, h⟩ := exec_bind_eq_ok.mp h
  obtain ⟨rfl, rfl⟩ := exec_pure_eq_ok.mp h
  obtain ⟨x', y, hx', hy, rfl⟩ := exec_update_eq_ok.mp ho
  rw [hq.context _ x hx, Option.some.injEq] at hx'
  subst hx'
  rw [Context.groupBy, Context.updateBody_query hk] at hy
  obtain rfl := Except.ok.inj hy
  exact ⟨.grouping items, _, .group hi, rfl, .changed hx hk hq hg .nil rfl rfl rfl⟩

theorem having_tells {p : Projection} (hq : Undisturbed m (after (p.read call v) m))
    (h : exec ((having p).apply call builder (.context c) v) m = (.ok w, m')) :
    (having p).Tells call builder c x d v w m m' := by
  unfold apply at h
  rw [exec_bind_of_ok (exec_asContext c m)] at h
  rw [exec_bind_of_ok (exec_readContext_of_some hx)] at h
  replace h := (exec_guarded_eq_ok.mp h).2
  obtain ⟨e, m₁, he, h⟩ := exec_bind_eq_ok.mp h
  rw [after_eq he] at hq
  have hg : Growing m m₁ := (p.read_keeps hc v).of_exec he
  obtain ⟨_, m₂, ho, h⟩ := exec_bind_eq_ok.mp h
  obtain ⟨rfl, rfl⟩ := exec_pure_eq_ok.mp h
  obtain ⟨x', y, hx', hy, rfl⟩ := exec_update_eq_ok.mp ho
  rw [hq.context _ x hx, Option.some.injEq] at hx'
  subst hx'
  replace hy := Context.having_eq_ok hy
  rw [Context.updateBody_query hk] at hy
  obtain rfl := Except.ok.inj hy
  exact ⟨.having e, _, .having he, rfl, .changed hx hk hq hg .nil rfl rfl rfl⟩

omit hc in
theorem distinct_tells
    (h : exec (distinct.apply call builder (.context c) v) m = (.ok w, m')) :
    distinct.Tells call builder c x d v w m m' := by
  unfold apply at h
  rw [exec_bind_of_ok (exec_asContext c m)] at h
  obtain ⟨_, m₁, ho, h⟩ := exec_bind_eq_ok.mp h
  obtain ⟨rfl, rfl⟩ := exec_pure_eq_ok.mp h
  obtain ⟨x', y, hx', hy, rfl⟩ := exec_update_eq_ok.mp ho
  rw [hx, Option.some.injEq] at hx'
  subst hx'
  rw [Context.distinct, Context.updateBody_query hk] at hy
  obtain rfl := Except.ok.inj hy
  exact ⟨.distinct, _, .distinct, rfl,
    .changed hx hk (Inert.refl m) (Inert.refl m) .nil rfl rfl rfl⟩

omit hk in
theorem map_tells {p : Projection} (hq : Undisturbed m (after (p.read call v) m))
    (h : exec ((map p).apply call builder (.context c) v) m = (.ok w, m')) :
    (map p).Tells call builder c x d v w m m' := by
  have hg : Growing m m' := (p.read_keeps hc v).of_exec h
  rw [show after (p.read call v) m = m' from after_eq h] at hq
  exact ⟨.selection w, x, .map h, rfl, .still hx hq hg rfl rfl (fun _ => rfl) rfl rfl⟩

omit hc hk in
theorem bounded_tells {bounding : Bounding}
    (h : exec ((bounded bounding).apply call builder (.context c) v) m = (.ok w, m')) :
    (bounded bounding).Tells call builder c x d v w m m' := by
  unfold apply at h
  dsimp only at h
  rw [exec_bind_of_ok (exec_readContext_of_some hx)] at h
  obtain ⟨rfl, rfl⟩ := exec_pure_eq_ok.mp (exec_guarded_eq_ok.mp h).2
  exact ⟨.aside, x, .bounded, rfl,
    .still hx (Inert.refl m) (Inert.refl m) rfl rfl (fun _ => rfl) rfl rfl⟩

omit hc in
theorem addRoot_tells (hb : b.roots ≠ []) {r : RefId} {entity : Value}
    (h : exec ((addRoot r entity).apply call builder (.context c) v) m = (.ok w, m')) :
    (addRoot r entity).Tells call builder c x d v w m m' := by
  unfold apply at h
  rw [exec_bind_of_ok (exec_asContext c m)] at h
  obtain ⟨root, m₁, hr, h⟩ := exec_bind_eq_ok.mp h
  obtain ⟨_, m₂, hbind, h⟩ := exec_bind_eq_ok.mp h
  obtain ⟨rfl, rfl⟩ := exec_pure_eq_ok.mp h
  obtain ⟨target, ha, rfl, rfl⟩ := exec_addRoot hx hk hb hr
  obtain ⟨hnew, rfl⟩ := exec_bindRef_eq_ok.mp hbind
  refine ⟨.root r target m.next, _, .addRoot ha, rfl, .single (context?_set hx _) .nil ?_ ?_ ?_
    ⟨Nat.le_succ _, by simp⟩ ?_⟩
  · intro b' orders' hk'
    obtain ⟨rfl, rfl⟩ := ContextKind.query.inj (hk.symm.trans hk')
    rfl
  · intro r' v' h'
    exact ref?_write_of_bound hnew h' _
  · intro r' v' h' hr'
    obtain ⟨rfl, rfl⟩ : r = r' ∧ Value.mapped ⟨target, some m.next⟩ = v' := by
      simpa [Entry.bound?] using h'
    exact ref?_write hr' _
  · intro n hn
    obtain rfl : m.next = n := by simpa [Entry.number?] using hn
    exact ⟨Nat.le_refl _, Nat.lt_succ_self _⟩

omit hc in
theorem join_tells {key outer : Value}
    (h : exec ((join key outer).apply call builder (.context c) v) m = (.ok w, m')) :
    (join key outer).Tells call builder c x d v w m m' := by
  unfold apply at h
  rw [exec_bind_of_ok (exec_asContext c m)] at h
  obtain ⟨owner, r, m₁, hr, rfl, rfl⟩ := exec_join hx hk h
  have hu : Undisturbed m m₁ := (resolveRelationship_keeps _ _).of_exec hr
  have hg : Growing m m₁ := (resolveRelationship_keeps _ _).of_exec hr
  refine ⟨.join _ m₁.next, _, .join hr, rfl, .single (context?_set (hu.context c x hx) _) .nil ?_
    hu.ref ?_ ⟨Nat.le_succ_of_le hg.next, hg.refs⟩ ?_⟩
  · intro b' orders' hk'
    obtain ⟨rfl, rfl⟩ := ContextKind.query.inj (hk.symm.trans hk')
    rfl
  · simp [Entry.bound?]
  · intro n hn
    obtain rfl : m₁.next = n := by simpa [Entry.number?] using hn
    exact ⟨hg.next, Nat.lt_succ_self _⟩

omit hc in
theorem count_tells (hd : b.distinct = .bool d)
    (h : exec (count.apply call builder (.context c) v) m = (.ok w, m')) :
    count.Tells call builder c x d v w m m' := by
  unfold apply at h
  rw [exec_bind_of_ok (exec_asContext c m),
    exec_countSelection hx (by rw [hk, ContextKind.body?]) hd, hk] at h
  have hu := (counted_keeps (R := Undisturbed) builder d v).of_exec h
  have hg := (counted_keeps (R := Growing) builder d v).of_exec h
  refine ⟨.count w, _, .count h, rfl, .single (hu.context c _ (context?_set hx _)) .nil ?_ hu.ref ?_
    ⟨hg.next, hg.refs⟩ ?_⟩
  · intro b' orders' hk'
    obtain ⟨rfl, rfl⟩ := ContextKind.query.inj (hk.symm.trans hk')
    rfl
  · simp [Entry.bound?]
  · simp [Entry.number?]

end Reading

end Step

end FluentQuery
