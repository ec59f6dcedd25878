import FluentQuery.Proofs.Chain

/-! What building a search does: its configuration runs inside the frame of a new query,
and the selection it ends with is selected. -/

namespace FluentQuery

open Sql

/-! ### Query contexts -/

theorem exec_asContext (c : ContextId) (m : Machine) :
    exec (Value.context c).asContext m = (.ok c, m) := rfl

theorem Context.updateBody_eq_ok {x y : Context} {f : SelectBody → SelectBody} :
    x.updateBody f = .ok y ↔
      ∃ b, x.kind.body? = some b ∧ y = { x with kind := x.kind.withBody (f b) } := by
  unfold updateBody
  rcases x.kind.body? with _ | b <;> simp [eq_comm]

theorem Context.restrict_eq_ok {x y : Context} {r : Value} (h : x.restrict r = .ok y) :
    r.isNull = false ∧ y = { x with restriction := r } := by
  unfold restrict at h
  split at h
  · cases h
  · rename_i passed
    exact ⟨by simpa using passed, (Except.ok.inj h).symm⟩

theorem Context.having_eq_ok {x y : Context} {r : Value} (h : x.having r = .ok y) :
    x.updateBody (fun b => { b with having := r }) = .ok y := by
  unfold having at h
  split at h
  · cases h
  · exact h

theorem Context.select_eq_ok {x y : Context} {w : Value} (h : x.select w = .ok y) :
    w.isNull = false ∧ x.updateBody (fun b => { b with selection := w }) = .ok y := by
  unfold select at h
  split at h
  · cases h
  · rename_i passed
    obtain ⟨b, hb, -⟩ := updateBody_eq_ok.mp h
    have selecting : x.isSelecting = true := by rw [isSelecting, hb]; rfl
    exact ⟨by simpa [selecting] using passed, h⟩

theorem Context.orderBy_eq_ok {x y : Context} {items : List Value} (h : x.orderBy items = .ok y) :
    ∃ b orders, x.kind = .query b orders ∧ y = { x with kind := .query b items } := by
  unfold orderBy at h
  split at h
  · rename_i b orders hk
    exact ⟨b, orders, hk, (Except.ok.inj h).symm⟩
  · cases h

/-- A root is correlated once. -/
theorem Context.correlate_eq_ok {x y : Context} {root : Value} (h : x.correlate root = .ok y) :
    ∃ b parent roots conditions, x.kind = .subquery b parent roots conditions ∧ y = { x with
      kind := .subquery b parent (if roots.any root.same then roots else roots ++ [root])
        conditions } := by
  unfold correlate at h
  split at h
  · rename_i b parent roots conditions hk
    refine ⟨b, parent, roots, conditions, hk, ?_⟩
    split at h
    · cases h
    · split at h
      · rename_i known
        rw [if_pos known, ← hk]
        exact (Except.ok.inj h).symm
      · rename_i new
        rw [if_neg new]
        exact (Except.ok.inj h).symm
  · cases h

theorem Context.assign_eq_ok {x y : Context} {key : String} {v : Value}
    (h : x.assign key v = .ok y) : ∃ target fields, x.kind = .update target fields ∧
      y = { x with kind := .update target (assoc key v fields) } := by
  unfold assign at h
  split at h
  · rename_i target fields hk
    exact ⟨target, fields, hk, (Except.ok.inj h).symm⟩
  · cases h

/-- What an operation that creates nothing makes of a query context. -/
inductive Context.Changed (x : Context) : Context → Prop
  | restriction (r : Value) : Changed x { x with restriction := r }
  | body {y} {f : SelectBody → SelectBody} (h : x.updateBody f = .ok y)
      (hf : ∀ b, (f b).roots = b.roots ∧ (f b).joins = b.joins) : Changed x y
  | orders {b orders} (h : x.kind = .query b orders) (items : List Value) :
      Changed x { x with kind := .query b items }
  | correlated {b parent roots conditions} (h : x.kind = .subquery b parent roots conditions)
      (roots' : List Value) : Changed x { x with kind := .subquery b parent roots' conditions }
  | assignments {target fields} (h : x.kind = .update target fields)
      (fields' : List (String × Value)) : Changed x { x with kind := .update target fields' }

theorem Context.Change.changed {x y : Context} {f : Context → Except Error Context} (hf : Change f)
    (h : f x = .ok y) : x.Changed y := by
  cases hf with
  | restrict r =>
    obtain ⟨-, rfl⟩ := restrict_eq_ok h
    exact .restriction r
  | groupBy items => exact .body h fun _ => ⟨rfl, rfl⟩
  | having r => exact .body (having_eq_ok h) fun _ => ⟨rfl, rfl⟩
  | distinct v => exact .body h fun _ => ⟨rfl, rfl⟩
  | select v => exact .body (select_eq_ok h).2 fun _ => ⟨rfl, rfl⟩
  | orderBy items =>
    obtain ⟨b, orders, hk, rfl⟩ := orderBy_eq_ok h
    exact .orders hk items
  | correlate root =>
    obtain ⟨b, parent, roots, conditions, hk, rfl⟩ := correlate_eq_ok h
    exact .correlated hk _
  | assign key v =>
    obtain ⟨target, fields, hk, rfl⟩ := assign_eq_ok h
    exact .assignments hk _

/-- What adding a root makes of a query context: the root comes behind the others. The first root of a
query is the object it was asked for, any other a new alias. -/
theorem Context.addRoot_eq_ok {x y : Context} {fresh : Nat} {entity root : Value}
    (h : x.addRoot fresh entity = .ok (root, y)) :
    entity.isNull = false ∧ x.updateBody (fun b => { b with roots := b.roots ++ [root] }) = .ok y ∧
      ∃ b, x.kind.body? = some b ∧
        if b.roots = [] ∧ x.isSubquery = false then root = entity
        else ∃ o, aliasOf? fresh entity = some o ∧ root = .mapped o := by
  have made {u : Value} (h : (do
      let z ← x.updateBody fun b => { b with roots := b.roots ++ [u] }
      return (u, z)) = Except.ok (root, y)) :
      root = u ∧ x.updateBody (fun b => { b with roots := b.roots ++ [root] }) = .ok y := by
    obtain ⟨z, hz, h⟩ := Except.bind_eq_ok.mp h
    obtain ⟨rfl, rfl⟩ := Prod.mk.inj (Except.ok.inj h)
    exact ⟨rfl, hz⟩
  unfold addRoot at h
  split at h
  · cases h
  rename_i b hb
  split at h
  · cases h
  rename_i nonnull
  split at h
  · rename_i first
    obtain ⟨same, updated⟩ := made h
    have first : b.roots = [] ∧ x.isSubquery = false := by simpa using first
    exact ⟨by simpa using nonnull, updated, b, hb, by rw [if_pos first]; exact same⟩
  · rename_i later
    split at h
    · cases h
    · rename_i o ho
      obtain ⟨same, updated⟩ := made h
      have later : ¬(b.roots = [] ∧ x.isSubquery = false) := by simpa using later
      exact ⟨by simpa using nonnull, updated, b, hb, by rw [if_neg later]; exact ⟨o, ho, same⟩⟩

/-- What a join makes of a query context: it is planned, or, if it is from a correlated root, its target
is one more root and its condition is kept. -/
inductive Context.HasJoined (x : Context) (fresh : Nat) (owner : Mapped) (r : Relationship)
    (outer : Value) : Bool → Context → Prop
  | planned {y} {target : Mapped} (ht : target = ⟨r.target, some fresh⟩)
      (h : x.updateBody (fun b => { b with joins := b.joins ++ [⟨owner, r, target, outer⟩] }) = .ok y) :
      HasJoined x fresh owner r outer false y
  | correlated {b parent roots conditions} {target : Mapped} (ht : target = ⟨r.target, some fresh⟩)
      (hk : x.kind = .subquery b parent roots conditions) :
      HasJoined x fresh owner r outer true { x with
        kind := .subquery { b with roots := b.roots ++ [.mapped target] } parent roots
          (conditions ++ [r.condition owner.source target.source target.source]) }

theorem Context.join_eq_ok {x y : Context} {fresh : Nat} {correlated : Bool} {owner : Mapped}
    {r : Relationship} {outer v : Value} {truth : Option Bool}
    (h : x.join fresh correlated owner r outer truth = .ok (v, y)) :
    v = .mapped ⟨r.target, some fresh⟩ ∧ x.HasJoined fresh owner r outer correlated y := by
  unfold join at h
  dsimp only at h
  split at h
  · rename_i from'
    subst from'
    split at h
    · rename_i hk
      split at h
      · cases h
      · cases h
      · cases h
      · obtain ⟨rfl, rfl⟩ := Prod.mk.inj (Except.ok.inj h)
        exact ⟨rfl, .correlated rfl hk⟩
    · cases h
  · rename_i plain
    obtain rfl := Bool.eq_false_iff.mpr plain
    obtain ⟨z, hz, h⟩ := Except.bind_eq_ok.mp h
    obtain ⟨rfl, rfl⟩ := Prod.mk.inj (Except.ok.inj h)
    exact ⟨rfl, .planned rfl hz⟩

/-! ### Searches -/

/-- The machine on which the configuration of a search starts: inside the frame of a new query. -/
def Machine.begun (m : Machine) : Machine :=
  let blank : Machine := { m with next := m.next + 1, contexts := m.contexts ++ [.query] }
  blank.entered (.criteriaBuilder m.next) (.context ⟨m.contexts.length⟩)

theorem QueryType.exec_select {t : QueryType} (hp : t.purpose = .search) {c : ContextId}
    {v w : Value} {m m' : Machine} (h : exec (t.select (.context c) w) m = (.ok v, m')) :
    v = .context c ∧ ∃ x y, m.context? c = some x ∧ x.select w = .ok y ∧
      m' = { m with contexts := m.contexts.set c.index y } := by
  unfold QueryType.select at h
  simp only [hp] at h
  obtain ⟨x, m₁, hr, h⟩ := exec_bind_eq_ok.mp h
  obtain rfl : m = m₁ := by
    rw [exec_readContext] at hr
    split at hr <;> simp_all
  replace h := (exec_guarded_eq_ok.mp h).2
  obtain ⟨_, m₂, hu, h⟩ := exec_bind_eq_ok.mp h
  obtain ⟨rfl, rfl⟩ := exec_pure_eq_ok.mp h
  exact ⟨rfl, exec_update_eq_ok.mp hu⟩

/-- The phases of a build: a new query is configured in a frame of its own, what that ended with is
selected, and behind the frame the build is only logged. -/
theorem Stream.exec_toContext_phases {s : Stream} {call : Call} {t : QueryType} {v : Value}
    {m m' : Machine} (ht : s.queryType = .queryType t)
    (h : exec (s.toContext call) m = (.ok v, m')) :
    let query : Value := .context ⟨m.contexts.length⟩
    let blank := after t.createContext { m with next := m.next + 1 }
    ∃ w m₁ m₂,
      exec (configure call s.configurer (.criteriaBuilder m.next) query)
        (blank.entered (.criteriaBuilder m.next) query) = (.ok w, m₁) ∧
      exec (t.select query w) m₁ = (.ok v, m₂) ∧
      ∀ {R : Machine → Machine → Prop} [Inert R], R ({ m₂ with stack := m.stack }.logged
        ("Left " ++ query.className blank ++ " construction")) m' := by
  intro query blank
  have created : exec t.createContext { m with next := m.next + 1 } =
      (.ok ⟨m.contexts.length⟩, blank) := rfl
  unfold toContext at h
  simp only [ht] at h
  rw [exec_bind_of_ok (exec_fresh m), exec_bind_of_ok created] at h
  obtain ⟨built, m₂, framed, h⟩ := exec_bind_eq_ok.mp h
  obtain ⟨_, m₃, logged, h⟩ := exec_bind_eq_ok.mp h
  obtain ⟨rfl, rfl⟩ := exec_pure_eq_ok.mp h
  rw [exec_withFrame rfl] at framed
  obtain ⟨inside, rfl⟩ := Prod.mk.inj framed
  obtain ⟨w, m₁, configured, selected⟩ := exec_bind_eq_ok.mp (Prod.ext inside rfl)
  refine ⟨w, m₁, _, configured, selected, fun {R} _ => ?_⟩
  exact Keeps.of_exec (logLine_keeps (.bind (shownNow_keeps _) fun _ =>
    .bind (shownNow_keeps _) fun _ => .pure _)) logged

theorem QueryType.createContext_search {t : QueryType} (hp : t.purpose = .search) (m : Machine) :
    after t.createContext m = { m with contexts := m.contexts ++ [.query] } := by
  unfold createContext
  rw [hp]
  rfl

/-- What building a search leaves: its query is the one its configuration left, with the selection
the configuration ended with. -/
theorem Stream.exec_toContext {s : Stream} {call : Call} {t : QueryType} {v : Value}
    {m m' : Machine} (ht : s.queryType = .queryType t) (hp : t.purpose = .search)
    (h : exec (s.toContext call) m = (.ok v, m')) :
    let c : ContextId := ⟨m.contexts.length⟩
    v = .context c ∧ ∃ w m₁ x y,
      exec (configure call s.configurer (.criteriaBuilder m.next) v) m.begun = (.ok w, m₁) ∧
      m₁.context? c = some x ∧ x.select w = .ok y ∧ m'.context? c = some y ∧
      (∀ r u, m₁.ref? r = some u → m'.ref? r = some u) ∧ m₁.next ≤ m'.next := by
  intro c
  obtain ⟨w, m₁, m₂, configured, selected, logged⟩ := exec_toContext_phases ht h
  rw [QueryType.createContext_search hp] at configured
  obtain ⟨rfl, x, y, hx, hy, rfl⟩ := QueryType.exec_select hp selected
  have undisturbed := logged (R := Undisturbed)
  have growing := logged (R := Growing)
  refine ⟨rfl, w, m₁, x, y, configured, hx, hy, ?_, fun r u hr => ?_, ?_⟩
  · refine undisturbed.context _ _ ?_
    simp only [Machine.context?, Machine.contexts_logged]
    exact context?_set hx y
  · refine undisturbed.ref _ _ ?_
    simp only [Machine.ref?, Machine.refs_logged]
    exact hr
  · refine Nat.le_trans ?_ growing.next
    simp only [Machine.next_logged]
    exact Nat.le_refl _

/-! ### Counting -/

/-- The expression that counts the values of a selection, of which the query takes only distinct
ones or all. -/
def counted (builder : Value) (distinct : Bool) (selection : Value) : Run Value := do
  match selection with
  | .tuple .. | .list .. =>
    if distinct then fail .countDistinctRows
    builder.requireBuilder
    Expression.call "count" []
  | .mapped _ => do
    builder.requireBuilder
    Expression.call "count" []
  | v => do
    builder.requireBuilder
    if distinct then Expression.countDistinct v
    else if v.isNull then Expression.call "count" []
    else Expression.call "count" [v]

@[grind ←] theorem counted_keeps {R : Machine → Machine → Prop} [Inert R] (builder : Value)
    (d : Bool) (v : Value) : Keeps R (counted builder d v) := by
  unfold counted
  split <;> grind

/-- Counting takes the distinct flag off the query, and counts by what it was. -/
theorem exec_countSelection {builder v : Value} {c : ContextId} {x : Context} {b : SelectBody}
    {d : Bool} {m : Machine} (hx : m.context? c = some x) (hb : x.kind.body? = some b)
    (hd : b.distinct = .bool d) :
    exec (countSelection builder c v) m = exec (counted builder d v) { m with
      contexts := m.contexts.set c.index
        { x with kind := x.kind.withBody { b with distinct := .bool false } } } := by
  unfold countSelection
  rw [exec_bind_of_ok (exec_readContext_of_some hx)]
  simp only [hb, pure_bind, hd]
  have cleared : exec (c.update (·.distinct (.bool false))) m = (.ok (), { m with
      contexts := m.contexts.set c.index
        { x with kind := x.kind.withBody { b with distinct := .bool false } } }) :=
    exec_update_eq_ok.mpr ⟨x, _, hx, Context.updateBody_eq_ok.mpr ⟨b, hb, rfl⟩, rfl⟩
  rw [exec_bind_of_ok cleared]
  cases v <;> rfl

/-! ### Executable queries -/

/-- Query contexts and executable queries are as they were. -/
structure Settled (m m' : Machine) : Prop where
  contexts : m'.contexts = m.contexts
  queries : m'.queries = m.queries

namespace Settled

instance : Inert Settled where
  refl _ := ⟨rfl, rfl⟩
  trans hab hbc := ⟨hbc.contexts.trans hab.contexts, hbc.queries.trans hab.queries⟩
  fresh _ := ⟨rfl, rfl⟩
  newMapping _ _ := ⟨rfl, rfl⟩
  log _ _ := ⟨rfl, rfl⟩
  handle _ _ := ⟨rfl, rfl⟩

end Settled

end FluentQuery
