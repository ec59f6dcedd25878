import FluentQuery.Proofs.Provenance.Steps

/-! A machine to which queries and mappings were added. What was known before says the same there:
whether it counts as true, the text that shows it, and the statement of a query context. -/

namespace FluentQuery

open Sql

/-! ### Texts of nodes -/

/-- Only frames and mappings are looked for among what a value stands inside. -/
theorem Value.shownTo_beside (m : Machine) (depth : Nat) (v : Value) {outer outer' : List Value}
    (alike : ∀ u : Value, (∀ s, u ≠ .stream s) → outer'.any u.same = outer.any u.same) :
    v.shownTo m outer' depth = v.shownTo m outer depth := by
  induction depth generalizing v outer outer' with
  | zero => rfl
  | succ depth ih =>
    have inner : shownTo m (v :: outer') depth = shownTo m (v :: outer) depth :=
      funext fun u => ih u fun x hx => by rw [List.any_cons, List.any_cons, alike x hx]
    unfold shownTo
    by_cases stream : ∃ s, v = .stream s
    · obtain ⟨s, rfl⟩ := stream
      simp only [inner]
    · simp only [inner, alike v fun s hs => stream ⟨s, hs⟩]

/-- The text of a node tells neither of its configuration nor of what it supplies. -/
theorem Stream.shown?_congr {s t : Stream} (m : Machine) (kind : t.kind = s.kind)
    (queryType : t.queryType = s.queryType) (first : t.firstResult = s.firstResult)
    (max : t.maxResults = s.maxResults) :
    (Value.stream t).shown? m = (Value.stream s).shown? m := by
  have inner : s.queryType.shownTo m [.stream t] 999 = s.queryType.shownTo m [.stream s] 999 := by
    refine Value.shownTo_beside m 999 _ fun u other => ?_
    have unlike (t : Stream) : u.same (.stream t) = false := by
      cases u with
      | stream s => exact absurd rfl (other s)
      | term id t => cases t <;> rfl
      | _ => rfl
    rw [List.any_cons, List.any_cons, unlike, unlike]
  change Value.shownTo m [] (999 + 1) _ = Value.shownTo m [] (999 + 1) _
  unfold Value.shownTo
  simp only [kind, queryType, first, max, inner]

/-! ### Machines that grow -/

/-- The machine holds what the first one holds, and maybe more queries and mappings. -/
structure Machine.Grows (m m' : Machine) : Prop where
  refs : m'.refs = m.refs
  contexts : m'.contexts = m.contexts
  queries : ∀ i < m.queries.length, m'.queries[i]? = m.queries[i]?
  mappings : ∀ i < m.mappings.length, m'.mappings[i]? = m.mappings[i]?

section Growth

variable {w : Moment} {m m' : Machine} (grows : m.Grows m') (hm : m.Known w)

namespace Machine.Grows

include grows

theorem ref? (r : RefId) : m'.ref? r = m.ref? r := by
  rw [Machine.ref?, Machine.ref?, grows.refs]

theorem context? (c : ContextId) : m'.context? c = m.context? c := by
  rw [Machine.context?, Machine.context?, grows.contexts]

include hm

theorem query? {q : QueryId} (h : (Value.query q).Known w) : m'.query? q = m.query? q := by
  replace h : q.index < w.extent.length .queries := h
  rw [hm.extent] at h
  exact grows.queries _ h

theorem mapping {i : MappingId} (h : (Value.mapping i).Known w) : m'.mapping i = m.mapping i := by
  replace h : i.index < w.extent.length .mappings := h
  rw [hm.extent] at h
  rw [Machine.mapping, Machine.mapping, grows.mappings _ h]

end Machine.Grows

include grows hm

namespace Value

theorem truth?_grown {v : Value} (h : v.Known w) : v.truth? m' = v.truth? m := by
  cases v with
  | mapping i => simp only [truth?, grows.mapping hm h]
  | term id t =>
    cases t with
    | compare op => cases op <;> rfl
    | _ => rfl
  | _ => rfl

omit grows hm in
theorem mapM_congr {α β : Type} {f g : α → Option β} {xs : List α} (h : ∀ x ∈ xs, g x = f x) :
    xs.mapM g = xs.mapM f := by
  have same := mapM_map_congr (r := id) h
  rwa [List.map_id] at same

omit grows hm in
theorem plainWith_congr {inner inner' : Value → Option String} {v : Value}
    (h : inner' v = inner v) : v.plainWith inner' = v.plainWith inner := by
  cases v with
  | member | text | term | statement => rfl
  | _ => exact h

omit grows hm in
theorem detailsWith_congr {inner inner' : Value → Option String}
    (h : ∀ {v : Value}, v.Known w → inner' v = inner v) {k : ContextKind} (hk : k.Known w) :
    k.detailsWith inner' = k.detailsWith inner := by
  cases k with
  | common | «abstract» | query => rfl
  | subquery b parent correlated conditions => simp only [ContextKind.detailsWith, h hk.2.1]
  | delete target => simp only [ContextKind.detailsWith, plainWith_congr (h hk)]
  | update target values => simp only [ContextKind.detailsWith, plainWith_congr (h hk.1)]

theorem shownTo_grown (depth : Nat) {v : Value} (h : v.Known w) (outer : List Value) :
    v.shownTo m' outer depth = v.shownTo m outer depth := by
  induction depth generalizing v outer with
  | zero => rfl
  | succ depth ih =>
    have inner {u : Value} (hu : u.Known w) :
        u.shownTo m' (v :: outer) depth = u.shownTo m (v :: outer) depth := ih hu (v :: outer)
    have all {items : List Value} (known : ∀ u ∈ items, u.Known w) :
        items.mapM (shownTo m' (v :: outer) depth) = items.mapM (shownTo m (v :: outer) depth) :=
      mapM_congr fun u hu => inner (known u hu)
    unfold shownTo
    cases v with
    | list id items | tuple id items | row id items => simp only [all (allKnown_iff.mp h.2)]
    | mapped x => obtain ⟨entity, _ | n⟩ := x <;> rfl
    | term id t => cases t <;> rfl
    | stream s => simp only [inner h.parts.queryType]
    | queryType t =>
      obtain ⟨id, purpose, entity⟩ := t
      simp only [inner h.2]
    | frame f =>
      obtain ⟨id, builder, query⟩ := f
      simp only [inner h.2.1, inner h.2.2]
    | ref r =>
      simp only [grows.ref? r]
      cases held : m.ref? r with
      | none => rfl
      | some u =>
        have stored : m.refs[r.index]? = some (some u) := Option.join_eq_some_iff.mp held
        simp only [inner (hm.refs _ (List.mem_of_getElem? stored) u rfl)]
    | context c =>
      simp only [grows.context? c]
      cases held : m.context? c with
      | none => rfl
      | some x =>
        have known : x.Known w := hm.contexts _ (List.mem_of_getElem? held)
        simp only [Option.bind_eq_bind, Option.bind_some, detailsWith_congr inner known.kind]
    | query q =>
      simp only [grows.query? hm h]
      cases held : m.query? q with
      | none => rfl
      | some x =>
        have known : x.Known w := hm.queries _ (List.mem_of_getElem? held)
        simp only [Option.bind_eq_bind, Option.bind_some, inner known.query]
    | mapping i =>
      simp only [grows.mapping hm h]
      rw [mapM_congr fun x hx =>
        congrArg (fun (shown : Option String) => do return Text.quoted x.1 ++ ": " ++ (← shown))
          (inner (i.mapping_known hm.toStoresKnown x hx).2)]
    | _ => rfl

theorem shown?_grown {v : Value} (h : v.Known w) : v.shown? m' = v.shown? m :=
  shownTo_grown grows hm 1000 h []

end Value

/-! ### Statements -/

theorem SelectBody.statement_grown {b : SelectBody} (hb : b.Known w) (restriction : Value)
    (orders : List Value) (conditions : List Term) (correlated : List Value) :
    b.statement m' restriction orders conditions correlated =
      b.statement m restriction orders conditions correlated := by
  have joins : b.joins.map (·.decide m') = b.joins.map (·.decide m) := by
    refine List.map_congr_left fun j hj => ?_
    rw [JoinPlan.decide, JoinPlan.decide, Value.truth?_grown grows hm (hb.joins j hj).2.2]
  unfold SelectBody.statement
  simp only [Value.truth?_grown grows hm hb.distinct, joins]

theorem Context.statement_grown {x : Context} (hx : x.Known w) :
    x.statement m' = x.statement m := by
  obtain ⟨restriction, kind⟩ := x
  obtain ⟨-, kind⟩ := hx
  cases ‹ContextKind› with
  | query b orders =>
    have same := SelectBody.statement_grown grows hm kind.1
    simp only [Context.statement, same]
  | subquery b parent correlated conditions =>
    have same := SelectBody.statement_grown grows hm kind.1
    simp only [Context.statement, Context.nested, same]
  | _ => rfl

end Growth

end FluentQuery
