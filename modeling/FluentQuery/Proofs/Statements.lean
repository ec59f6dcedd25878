import FluentQuery.Proofs.Builds

/-! The SELECT of a built search: that of its query, with the parameters and the row bounds
of the stream. -/

namespace FluentQuery

open Sql

/-- The SELECT that a search sends once it is built. -/
def Stream.statement (call : Call) (s : Stream) : Run Select := do
  match ← s.toQuery call with
  | .query q =>
    match ← QueryId.currentStatement (← q.typed) with
    | .select sel => return sel
    | _ => fail .external
  | _ => fail .external

/-- What a row bound of a stream shows in its statement. -/
def Bound.Shows (b : Bound) (r : Option RowBound) : Prop :=
  if b.isSet then ∃ id n, b.toInt = .ok n ∧ r = some ⟨id, n⟩ else r = none

theorem Bound.Shows.value_eq {b : Bound} {r r' : Option RowBound} (h : b.Shows r)
    (h' : b.Shows r') : r.map (·.value) = r'.map (·.value) := by
  unfold Shows at h h'
  split at h
  · rename_i hb
    rw [if_pos hb] at h'
    obtain ⟨id, n, hn, rfl⟩ := h
    obtain ⟨id', n', hn', rfl⟩ := h'
    simp [Except.ok.inj (hn.symm.trans hn')]
  · rename_i hb
    rw [if_neg hb] at h'
    rw [h, h']

theorem Bound.shows_orUnset {b : Bound} {r : Option RowBound} :
    (if b.isSet then b else .unset).Shows r ↔ b.Shows r := by
  split
  · exact Iff.rfl
  · rename_i hb
    simp [Shows, hb, Stream.isSet_unset]

/-- The kind of executable query a query type wraps its queries in. -/
def Purpose.queryKind : Purpose → QueryKind
  | .search => .typed
  | .delete | .update => .bulk

theorem QueryType.exec_createQuery {t : QueryType} {session query : Value} {q : QueryId}
    {m m' : Machine} (h : exec (t.createQuery session query) m = (.ok q, m')) :
    m'.contexts = m.contexts ∧ ∃ params options, m'.query? q =
      some ⟨t.purpose.queryKind, session, query, params, options, .unset, .unset⟩ := by
  unfold createQuery at h
  replace h := (exec_guarded_eq_ok.mp (exec_guarded_eq_ok.mp h).2).2
  change exec (do
    QueryId.new ⟨t.purpose.queryKind, session, query, ← MappingId.new [], ← MappingId.new [],
      .unset, .unset⟩) m = (.ok q, m') at h
  obtain ⟨params, m₁, h₁, h⟩ := exec_bind_eq_ok.mp h
  obtain ⟨options, m₂, h₂, h⟩ := exec_bind_eq_ok.mp h
  obtain ⟨-, rfl⟩ := Prod.mk.inj h₁
  obtain ⟨-, rfl⟩ := Prod.mk.inj h₂
  obtain ⟨hq, rfl⟩ := Prod.mk.inj h
  obtain rfl := Except.ok.inj hq
  exact ⟨rfl, params, options, by simp [Machine.query?]⟩

/-- A stream that was built has an executable query over its criteria, with its row bounds. -/
theorem Stream.exec_toQuery {s : Stream} {call : Call} {t : QueryType} {v : Value} {m m' : Machine}
    (ht : s.queryType = .queryType t) (h : exec (s.toQuery call) m = (.ok v, m')) :
    ∃ u m₁ q x, exec (s.toContext call) m = (.ok u, m₁) ∧ v = .query q ∧ m'.query? q = some x ∧
      x.kind = t.purpose.queryKind ∧ x.query = u ∧
      x.firstResult = (if s.firstResult.isSet then s.firstResult else .unset) ∧
      x.maxResults = (if s.maxResults.isSet then s.maxResults else .unset) ∧
      m'.contexts = m₁.contexts := by
  unfold toQuery at h
  simp only [ht] at h
  obtain ⟨u, m₁, hu, h⟩ := exec_bind_eq_ok.mp h
  obtain ⟨q, m₂, hq, h⟩ := exec_bind_eq_ok.mp h
  obtain ⟨hcontexts, params, options, hx⟩ := QueryType.exec_createQuery hq
  rw [exec_bind_of_ok (QueryId.exec_read_of_some hx)] at h
  obtain ⟨_, m₃, h₃, h⟩ := exec_bind_eq_ok.mp h
  obtain ⟨_, m₄, h₄, h⟩ := exec_bind_eq_ok.mp h
  obtain ⟨_, m₅, h₅, h⟩ := exec_bind_eq_ok.mp h
  obtain ⟨_, m₆, h₆, h⟩ := exec_bind_eq_ok.mp h
  obtain ⟨rfl, rfl⟩ := exec_pure_eq_ok.mp h
  have settled : Settled m₅ m₆ := (Stream.logCompiled_keeps s q).of_exec h₆
  obtain ⟨-, rfl⟩ := Prod.mk.inj h₃
  obtain ⟨-, rfl⟩ := Prod.mk.inj h₄
  obtain ⟨-, rfl⟩ := Prod.mk.inj h₅
  let x : Executable := ⟨t.purpose.queryKind, s.session, u, params, options,
    if s.firstResult.isSet then s.firstResult else .unset,
    if s.maxResults.isSet then s.maxResults else .unset⟩
  refine ⟨u, m₁, q, x, hu, rfl, ?_, rfl, rfl, rfl, rfl, settled.contexts.trans hcontexts⟩
  rw [Machine.query?, settled.queries]
  obtain ⟨hlt, _⟩ := List.getElem?_eq_some_iff.mp hx
  exact List.getElem?_set_self hlt

/-! ### Statements -/

theorem Value.mapM_mappedOrExternal_eq_ok {vs : List Value} {ms : List Mapped} :
    vs.mapM mappedOrExternal = .ok ms ↔ vs = ms.map .mapped := by
  induction vs generalizing ms with
  | nil => cases ms <;> simp [pure, Except.pure]
  | cons v vs ih =>
    have one {m : Mapped} : v.mappedOrExternal = .ok m ↔ v = .mapped m := by
      cases v <;> simp [mappedOrExternal, source?]
    rw [List.mapM_cons]
    constructor
    · intro h
      obtain ⟨m, hm, h⟩ := Except.bind_eq_ok.mp h
      obtain ⟨rest, hrest, h⟩ := Except.bind_eq_ok.mp h
      rw [← Except.ok.inj h, one.mp hm, ih.mp hrest, List.map_cons]
    · intro h
      cases ms with
      | nil => cases h
      | cons m ms =>
        obtain ⟨hm, hrest⟩ := List.cons.inj h
        rw [one.mpr hm, ih.mpr hrest]
        rfl

/-- What the SELECT of a body takes over from it. -/
structure SelectBody.Gives (m : Machine) (b : SelectBody) (restriction : Value)
    (joinConditions : List Term) (correlated : List Value) (s : Select) : Prop where
  items : b.selection.isNull = false → b.selection.selectItems = .ok s.items
  roots : ∃ roots, b.roots.mapM Value.mappedOrExternal = .ok roots ∧
    s.roots = roots.map Mapped.source
  joins : s.joins = b.joins.map (·.decide m)
  conditions : ∃ own, restriction.conditions = .ok own ∧ s.conditions = own ++ joinConditions
  distinct : b.distinct.truth? m = some s.distinct
  groupBy : ∃ keys, (Value.unlessNull b.groupBy).mapM Value.groupKeys = .ok keys ∧
    s.groupBy = keys.flatten
  having : b.having.conditions = .ok s.having
  correlation : ∃ sources, correlated.mapM Value.mappedOrExternal = .ok sources ∧
    s.correlation = if sources.isEmpty then .automatic else .only (sources.map Mapped.source)
  limit : s.limit = none
  offset : s.offset = none

theorem SelectBody.statement_eq_ok {m : Machine} {b : SelectBody} {restriction : Value}
    {orders correlated : List Value} {joinConditions : List Term} {s : Select}
    (h : b.statement m restriction orders joinConditions correlated = .ok s) :
    b.Gives m restriction joinConditions correlated s := by
  unfold SelectBody.statement at h
  dsimp only at h
  split at h
  · cases h
  all_goals
    rename_i hselection
    obtain ⟨selection, hchosen, h⟩ := Except.bind_eq_ok.mp h
    obtain ⟨items, hitems, h⟩ := Except.bind_eq_ok.mp h
    obtain ⟨roots, hroots, h⟩ := Except.bind_eq_ok.mp h
    obtain ⟨conditions, hconditions, h⟩ := Except.bind_eq_ok.mp h
    obtain ⟨groups, hgroups, h⟩ := Except.bind_eq_ok.mp h
    obtain ⟨having, hhaving, h⟩ := Except.bind_eq_ok.mp h
    split at h
    · rename_i truth
      obtain ⟨distinct, hdistinct, h⟩ := Except.bind_eq_ok.mp h
      obtain ⟨orders, horders, h⟩ := Except.bind_eq_ok.mp h
      obtain ⟨correlated, hcorrelated, h⟩ := Except.bind_eq_ok.mp h
      obtain rfl := Except.ok.inj h
      obtain rfl := Except.ok.inj hdistinct
      obtain rfl := Except.ok.inj hchosen
      refine ⟨fun notNull => ?_, ⟨roots, hroots, rfl⟩, rfl, ⟨conditions, hconditions, rfl⟩, truth,
        ⟨groups, hgroups, rfl⟩, hhaving, ⟨correlated, hcorrelated, rfl⟩, rfl, rfl⟩
      simp_all [Value.isNull]
    · cases h

namespace ContextKind

/-- The conditions of the joins from correlated roots. -/
def joinConditions : ContextKind → List Term
  | subquery _ _ _ conditions => conditions
  | _ => []

def correlated : ContextKind → List Value
  | subquery _ _ roots _ => roots
  | _ => []

variable {k : ContextKind} {b b' : SelectBody}

@[simp] theorem joinConditions_withBody : (k.withBody b).joinConditions = k.joinConditions := by
  cases k <;> rfl

@[simp] theorem correlated_withBody : (k.withBody b).correlated = k.correlated := by
  cases k <;> rfl

theorem body?_withBody (h : k.body? = some b) : (k.withBody b').body? = some b' := by
  cases k with
  | «abstract» | query | subquery => rfl
  | common | delete | update => cases h

end ContextKind

/-- What a query context can stand for: the SELECT of its body, or a statement that changes the rows
its restriction selects. -/
inductive Context.States (m : Machine) (x : Context) : Statement → Prop
  | select {b : SelectBody} {s : Select} (body : x.kind.body? = some b)
      (gives : b.Gives m x.restriction x.kind.joinConditions x.kind.correlated s) :
      States m x (.select s)
  | delete {target : Value} {s : Source} {own : List Term} (kind : x.kind = .delete target)
      (restricts : x.restriction.conditions = .ok own) : States m x (.delete s own)
  | update {target : Value} {values : List (String × Value)} {e : Mapped} {set : List Assignment}
      {own : List Term} (kind : x.kind = .update target values)
      (restricts : x.restriction.conditions = .ok own) : States m x (.update e set own)

theorem Context.states {m : Machine} {x : Context} {st : Statement} (h : x.statement m = .ok st) :
    x.States m st := by
  obtain ⟨restriction, kind⟩ := x
  cases kind with
  | common | «abstract» => cases h
  | query b orders =>
    obtain ⟨s, built, rfl⟩ := Except.map_eq_ok.mp h
    exact .select rfl (SelectBody.statement_eq_ok built)
  | subquery b parent correlated conditions =>
    obtain ⟨s, built, rfl⟩ := Except.map_eq_ok.mp h
    exact .select rfl (SelectBody.statement_eq_ok built)
  | delete target =>
    obtain ⟨t, -, h⟩ := Except.bind_eq_ok.mp h
    obtain ⟨own, restricts, h⟩ := Except.bind_eq_ok.mp h
    obtain rfl := Except.ok.inj h
    exact .delete rfl restricts
  | update target values =>
    unfold Context.statement at h
    dsimp only at h
    split at h
    · cases h
    · obtain ⟨t, -, h⟩ := Except.bind_eq_ok.mp h
      obtain ⟨own, restricts, h⟩ := Except.bind_eq_ok.mp h
      obtain ⟨set, -, h⟩ := Except.bind_eq_ok.mp h
      obtain rfl := Except.ok.inj h
      exact .update rfl restricts

/-- The SELECT of a query or a subquery is that of its body. -/
theorem Context.statement_eq_ok {m : Machine} {x : Context} {s : Select}
    (h : x.statement m = .ok (.select s)) :
    ∃ b, x.kind.body? = some b ∧
      b.Gives m x.restriction x.kind.joinConditions x.kind.correlated s := by
  cases Context.states h with
  | select body gives => exact ⟨_, body, gives⟩

/-! ### Executable queries -/

namespace Executable

variable {q : Executable} {m : Machine} {next : Nat}

theorem withParams_eq_ok {st : Statement} {s : Select} (h : q.withParams m st = .ok (.select s)) :
    ∃ base supplied, st = .select base ∧ s = { base with supplied } := by
  unfold withParams at h
  dsimp only at h
  split at h
  · obtain rfl := Except.ok.inj h
    exact ⟨s, s.supplied, rfl, by cases s; rfl⟩
  · split at h
    · cases h
    · split at h
      · obtain rfl := Statement.select.inj (Except.ok.inj h)
        exact ⟨_, _, rfl, rfl⟩
      · cases h

/-- Row bounds that are set replace those of the statement. -/
theorem withBounds_eq_ok {st : Statement} {s : Select}
    (h : q.withBounds next st = .ok (.select s)) :
    ∃ base offset limit, st = .select base ∧ s = { base with offset, limit } ∧
      (base.offset = none → q.firstResult.Shows offset) ∧
      (base.limit = none → q.maxResults.Shows limit) := by
  unfold withBounds at h
  split at h
  · rename_i unset
    obtain ⟨hf, hl⟩ : q.firstResult.isSet = false ∧ q.maxResults.isSet = false := by simpa using unset
    obtain rfl := Except.ok.inj h
    exact ⟨s, s.offset, s.limit, rfl, by cases s; rfl, fun h => by simpa [Bound.Shows, hf] using h,
      fun h => by simpa [Bound.Shows, hl] using h⟩
  · split at h
    · rename_i base
      have bound {id : Nat} {b : Bound} {old r : Option RowBound}
          (h : (if b.isSet then b.toInt.map fun n => some ⟨id, n⟩ else .ok old) = .ok r)
          (hold : old = none) : b.Shows r := by
        unfold Bound.Shows
        split at h
        · rename_i hb
          rw [if_pos hb]
          rcases hn : b.toInt with e | n
          · rw [hn] at h
            cases h
          · rw [hn] at h
            exact ⟨id, n, rfl, (Except.ok.inj h).symm⟩
        · rename_i hb
          rw [if_neg hb, ← hold]
          exact (Except.ok.inj h).symm
      obtain ⟨offset, hoffset, h⟩ := Except.bind_eq_ok.mp h
      obtain ⟨limit, hlimit, h⟩ := Except.bind_eq_ok.mp h
      obtain rfl := Statement.select.inj (Except.ok.inj h)
      exact ⟨base, offset, limit, rfl, rfl, bound hoffset, bound hlimit⟩
    · cases h

/-- The SELECT of a search over a query: that of the query, with parameters and row bounds. -/
theorem statement_eq_ok {c : ContextId} {s : Select} (hk : q.kind = .typed)
    (hq : q.query = .context c) (h : q.statement m next = .ok (.select s)) :
    ∃ x base supplied offset limit, m.context? c = some x ∧
      x.statement m = .ok (.select base) ∧ s = { base with supplied, offset, limit } ∧
      q.firstResult.Shows offset ∧ q.maxResults.Shows limit := by
  unfold statement statementTo at h
  simp only [hk, hq] at h
  obtain ⟨x, hx, h⟩ := Except.bind_eq_ok.mp h
  obtain ⟨bare, hbare, h⟩ := Except.bind_eq_ok.mp h
  obtain ⟨supplied, hsupplied, h⟩ := Except.bind_eq_ok.mp h
  obtain ⟨bounded, offset, limit, rfl, rfl, hoffset, hlimit⟩ := withBounds_eq_ok h
  obtain ⟨base, params, rfl, rfl⟩ := withParams_eq_ok hsupplied
  obtain ⟨b, _, gives⟩ := Context.statement_eq_ok hbare
  have found : m.context? c = some x := by
    rcases hc : m.context? c with _ | y
    · rw [hc] at hx
      cases hx
    · rw [hc] at hx
      exact congrArg some (Except.ok.inj hx)
  exact ⟨x, base, params, offset, limit, found, hbare, rfl, hoffset gives.offset,
    hlimit gives.limit⟩

end Executable

/-! ### Searches -/

/-- The SELECT of a search is that of the query its configuration left, with the selection the
configuration ended with and the row bounds of the stream. -/
theorem Stream.exec_statement {s : Stream} {call : Call} {t : QueryType} {sel : Select}
    {m m' : Machine} (ht : s.queryType = .queryType t) (hp : t.purpose = .search)
    (h : exec (s.statement call) m = (.ok sel, m')) :
    ∃ w m₁ x b base supplied offset limit,
      exec (configure call s.configurer (.criteriaBuilder m.next) (.context ⟨m.contexts.length⟩))
        m.begun = (.ok w, m₁) ∧
      m₁.context? ⟨m.contexts.length⟩ = some x ∧ x.kind.body? = some b ∧ w.isNull = false ∧
      m'.context? ⟨m.contexts.length⟩ =
        some { x with kind := x.kind.withBody { b with selection := w } } ∧
      SelectBody.Gives m' { b with selection := w } x.restriction x.kind.joinConditions
        x.kind.correlated base ∧
      sel = { base with supplied, offset, limit } ∧ s.firstResult.Shows offset ∧
      s.maxResults.Shows limit := by
  unfold statement at h
  obtain ⟨v, m₁, hquery, h⟩ := exec_bind_eq_ok.mp h
  obtain ⟨_, m₂, q, x, hcontext, rfl, hx, hkind, rfl, hfirst, hmax, hcontexts⟩ :=
    exec_toQuery ht hquery
  replace hkind : x.kind = .typed := hkind.trans (by rw [hp]; rfl)
  obtain ⟨hv, w, m₃, y, z, hw, hy, hz, hfound, -⟩ := exec_toContext ht hp hcontext
  obtain ⟨hnull, selects⟩ := Context.select_eq_ok hz
  obtain ⟨b, hb, rfl⟩ := Context.updateBody_eq_ok.mp selects
  have htyped : exec q.typed m₁ = (.ok x, m₁) := by
    unfold QueryId.typed
    rw [exec_bind_of_ok (QueryId.exec_read_of_some hx), hkind]
    rfl
  dsimp only at h
  rw [exec_bind_of_ok htyped] at h
  obtain ⟨st, m₄, hst, h⟩ := exec_bind_eq_ok.mp h
  obtain ⟨hstatement, rfl⟩ := exec_liftExcept_eq_ok.mp hst
  cases st with
  | select s' =>
    obtain ⟨rfl, rfl⟩ := exec_pure_eq_ok.mp h
    obtain ⟨z, base, supplied, offset, limit, hz', hbase, rfl, hoffset, hlimit⟩ :=
      Executable.statement_eq_ok hkind hv hstatement
    rw [Machine.context?, hcontexts, ← Machine.context?, hfound, Option.some.injEq] at hz'
    subst hz'
    obtain ⟨b', hb', gives⟩ := Context.statement_eq_ok hbase
    obtain rfl := Option.some.inj ((ContextKind.body?_withBody hb).symm.trans hb')
    rw [hfirst, Bound.shows_orUnset] at hoffset
    rw [hmax, Bound.shows_orUnset] at hlimit
    rw [hv] at hw
    refine ⟨w, m₃, y, b, base, supplied, offset, limit, hw, hy, hb, hnull, ?_, ?_, rfl, hoffset,
      hlimit⟩
    · rw [Machine.context?, hcontexts, ← Machine.context?, hfound]
    · simpa using gives
  | _ => cases h

end FluentQuery
