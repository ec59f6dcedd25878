import FluentQuery.Proofs.Provenance.Expressions

/-! The statement of something known is known: it is put together from what the query context and
the executable queries hold. -/

namespace FluentQuery

open Sql

variable {w : Moment} {ρ : Renaming}

/-! ### What is known is fixed -/

theorem Value.map_fixed (hρ : ρ.Fixes w.extent) {vs : List Value} (h : ∀ v ∈ vs, v.Known w) :
    vs.map (Value.rename ρ) = vs :=
  FluentQuery.map_fixed fun v hv => (h v hv).fixed hρ

theorem Value.renameEntries_fixed (hρ : ρ.Fixes w.extent) {fields : List (String × Value)}
    (h : ∀ x ∈ fields, x.2.Known w) : Value.renameEntries ρ fields = fields :=
  FluentQuery.map_fixed fun x hx => congrArg (Prod.mk x.1) ((h x hx).fixed hρ)

theorem SelectBody.Known.fixed (hρ : ρ.Fixes w.extent) {b : SelectBody} (h : b.Known w) :
    b.rename ρ = b := by
  have joins : b.joins.map (JoinPlan.rename ρ) = b.joins := by
    refine FluentQuery.map_fixed fun j hj => ?_
    obtain ⟨owner, target, outer⟩ := h.joins j hj
    obtain ⟨o, r, t, v⟩ := j
    have ho : o.rename ρ = o := owner ρ hρ
    have ht : t.rename ρ = t := target ρ hρ
    rw [JoinPlan.rename, ho, ht, outer.fixed hρ]
  unfold SelectBody.rename
  rw [Value.map_fixed hρ h.roots, joins, Value.map_fixed hρ h.groupBy, h.having.fixed hρ,
    h.distinct.fixed hρ, h.selection.fixed hρ]

theorem ContextKind.Known.fixed (hρ : ρ.Fixes w.extent) {k : ContextKind} (h : k.Known w) :
    k.rename ρ = k := by
  cases k with
  | common => rfl
  | abstract b => exact congrArg ContextKind.abstract (SelectBody.Known.fixed hρ h)
  | query b orders =>
    exact congrArg₂ ContextKind.query (h.1.fixed hρ) (Value.map_fixed hρ h.2)
  | subquery b parent correlated conditions =>
    obtain ⟨hb, hp, hr, ht⟩ := h
    have fixed : conditions.map (Term.rename ρ) = conditions := map_fixed fun t h => ht t h ρ hρ
    rw [ContextKind.rename, hb.fixed hρ, hp.fixed hρ, Value.map_fixed hρ hr, fixed]
  | delete target => exact congrArg ContextKind.delete (Value.Known.fixed hρ h)
  | update target values =>
    exact congrArg₂ ContextKind.update (h.1.fixed hρ) (Value.renameEntries_fixed hρ h.2)

theorem Context.Known.fixed (hρ : ρ.Fixes w.extent) {c : Context} (h : c.Known w) :
    c.rename ρ = c :=
  congrArg₂ Context.mk (h.restriction.fixed hρ) (h.kind.fixed hρ)

theorem Executable.Known.fixed (hρ : ρ.Fixes w.extent) {q : Executable} (h : q.Known w) :
    q.rename ρ = q := by
  have params : q.params.rename ρ = q.params := congrArg MappingId.mk (hρ.address _ _ h.params)
  have options : q.options.rename ρ = q.options := congrArg MappingId.mk (hρ.address _ _ h.options)
  unfold Executable.rename
  rw [h.session.fixed hρ, h.query.fixed hρ, params, options]

/-! ### Statements of query contexts -/

section Contexts

variable {m : Machine}

/-- A result that renaming its argument does not change is fixed. -/
theorem fixed_of_ok {β : Type} {x : Except Error β} {f : β → β} (same : x = x.map f) {b : β}
    (h : x = .ok b) : f b = b := by
  rw [h] at same
  exact (Except.ok.inj same).symm

/-- A list of results of which renaming changes no argument is fixed. -/
theorem fixed_of_mapM_ok {β : Type} {f : Value → Except Error β} {g : β → β}
    (hf : ∀ v : Value, f (v.rename ρ) = (f v).map g) {vs : List Value}
    (fixed : vs.map (Value.rename ρ) = vs) {bs : List β} (h : vs.mapM f = .ok bs) :
    bs.map g = bs := by
  have renamed := Except.mapM_map_congr hf vs
  rw [fixed] at renamed
  exact fixed_of_ok renamed h

theorem SelectBody.statement_fixed {b : SelectBody} (hb : b.rename ρ = b) {restriction : Value}
    (hr : restriction.rename ρ = restriction) {orders correlated : List Value}
    (ho : orders.map (Value.rename ρ) = orders) {conditions : List Term}
    (ht : conditions.map (Term.rename ρ) = conditions)
    (hc : correlated.map (Value.rename ρ) = correlated) {s : Select}
    (h : b.statement m restriction orders conditions correlated = .ok s) : s.rename ρ = s := by
  have chosen := b.chosen_rename (ρ := ρ)
  rw [hb] at chosen
  rw [statement_eq] at h
  obtain ⟨selection, hselection, h⟩ := Except.bind_eq_ok.mp h
  obtain ⟨items, hitems, h⟩ := Except.bind_eq_ok.mp h
  obtain ⟨roots, hroots, h⟩ := Except.bind_eq_ok.mp h
  obtain ⟨own, hown, h⟩ := Except.bind_eq_ok.mp h
  obtain ⟨groups, hgroups, h⟩ := Except.bind_eq_ok.mp h
  obtain ⟨having, hhaving, h⟩ := Except.bind_eq_ok.mp h
  obtain ⟨distinct, hdistinct, h⟩ := Except.bind_eq_ok.mp h
  obtain ⟨keys, hkeys, h⟩ := Except.bind_eq_ok.mp h
  obtain ⟨outer, houter, h⟩ := Except.bind_eq_ok.mp h
  obtain rfl := Except.ok.inj h
  have selected := selection.selectItems_rename (ρ := ρ)
  rw [fixed_of_ok chosen hselection] at selected
  have restricted := restriction.conditions_rename (ρ := ρ)
  rw [hr] at restricted
  have held := b.having.conditions_rename (ρ := ρ)
  rw [show b.having.rename ρ = b.having from congrArg SelectBody.having hb] at held
  have rooted := fixed_of_mapM_ok Value.mappedOrExternal_rename (congrArg SelectBody.roots hb) hroots
  have outers := fixed_of_mapM_ok Value.mappedOrExternal_rename hc houter
  have nulled {vs : List Value} (h : vs.map (Value.rename ρ) = vs) :
      (Value.unlessNull vs).map (Value.rename ρ) = Value.unlessNull vs := by
    rw [← Value.unlessNull_rename, h]
  have grouped := fixed_of_mapM_ok Value.groupKeys_rename (nulled (congrArg SelectBody.groupBy hb))
    hgroups
  have sorted := fixed_of_mapM_ok Value.sortKey_rename (nulled ho) hkeys
  have joined : (b.joins.map (·.decide m)).map (Join.rename ρ) = b.joins.map (·.decide m) := by
    have plans : b.joins.map (JoinPlan.rename ρ) = b.joins := congrArg SelectBody.joins hb
    rw [List.map_map]
    refine List.map_congr_left fun j hj => ?_
    have plan := fixed_of_map_fixed plans hj
    have owner : j.owner.rename ρ = j.owner := congrArg JoinPlan.owner plan
    have target : j.target.rename ρ = j.target := congrArg JoinPlan.target plan
    simp only [Function.comp_apply, JoinPlan.decide, Join.rename, owner, target]
  have sources {ms : List Mapped} (h : ms.map (Mapped.rename ρ) = ms) :
      (ms.map Mapped.source).map (Source.rename ρ) = ms.map Mapped.source := by
    rw [List.map_map]
    refine List.map_congr_left fun x hx => ?_
    rw [Function.comp_apply, ← x.rename_source, fixed_of_map_fixed h hx]
  have correlation : Correlation.rename ρ
      (if outer.isEmpty then .automatic else .only (outer.map Mapped.source)) =
      if outer.isEmpty then .automatic else .only (outer.map Mapped.source) := by
    split
    · rfl
    · exact congrArg Correlation.only (sources outers)
  have flat : groups.flatten.map (Term.rename ρ) = groups.flatten := by
    rw [List.map_flatten, grouped]
  simp only [Select.rename, SelectItem.renameAll_eq, Term.renameAll_eq, sources rooted, joined,
    correlation, flat, List.map_append, fixed_of_ok restricted hown, ht, fixed_of_ok held hhaving,
    sorted, fixed_of_ok selected hitems, Option.map_none, List.map_nil]

theorem Context.nested_fixed {x : Context} (hx : x.rename ρ = x) {s : Select}
    (h : x.nested m = .ok s) : s.rename ρ = s := by
  obtain ⟨restriction, kind⟩ := x
  have hr := congrArg Context.restriction hx
  have hk := congrArg Context.kind hx
  cases kind with
  | subquery b parent correlated conditions =>
    obtain ⟨hb, -, hc, ht⟩ := ContextKind.subquery.inj hk
    exact b.statement_fixed hb hr rfl ht hc h
  | _ => cases h

theorem Context.assignments_fixed {e : Entity} {values : List (String × Value)}
    (hv : Value.renameEntries ρ values = values) {as : List Assignment}
    (h : assignments e values = .ok as) : as.map (Assignment.rename ρ) = as := by
  have renamed := assignments_rename (ρ := ρ) e values
  rw [hv] at renamed
  exact fixed_of_ok renamed h

theorem Context.statement_fixed {x : Context} (hx : x.rename ρ = x) {s : Statement}
    (h : x.statement m = .ok s) : s.rename ρ = s := by
  have nested {t : Select} := x.nested_fixed (m := m) hx (s := t)
  obtain ⟨restriction, kind⟩ := x
  have hr := congrArg Context.restriction hx
  have hk := congrArg Context.kind hx
  have conditions := restriction.conditions_rename (ρ := ρ)
  rw [show restriction.rename ρ = restriction from hr] at conditions
  have of_select {y : Except Error Select} (hy : ∀ {t}, y = .ok t → t.rename ρ = t)
      (h : y.map Statement.select = .ok s) : s.rename ρ = s := by
    cases y with
    | error e => cases h
    | ok t =>
      obtain rfl := Except.ok.inj h
      exact congrArg Statement.select (hy rfl)
  have mapped {v : Value} (hv : v.rename ρ = v) {t : Mapped} (ht : v.mappedOrExternal = .ok t) :
      t.rename ρ = t := by
    have renamed := v.mappedOrExternal_rename (ρ := ρ)
    rw [hv] at renamed
    exact fixed_of_ok renamed ht
  cases kind with
  | common => cases h
  | abstract => cases h
  | query b orders =>
    obtain ⟨hb, ho⟩ := ContextKind.query.inj hk
    refine of_select (fun ht => ?_) h
    exact b.statement_fixed hb hr ho rfl rfl ht
  | subquery =>
    exact of_select nested h
  | delete target =>
    obtain ⟨t, ht, h⟩ := Except.bind_eq_ok.mp h
    obtain ⟨own, hown, h⟩ := Except.bind_eq_ok.mp h
    obtain rfl := Except.ok.inj h
    have fixed := mapped (ContextKind.delete.inj hk) ht
    rw [Statement.rename, Term.renameAll_eq, fixed_of_ok conditions hown, ← t.rename_source, fixed]
  | update target values =>
    obtain ⟨htarget, hvalues⟩ := ContextKind.update.inj hk
    unfold statement at h
    dsimp only at h
    split at h
    · cases h
    obtain ⟨t, ht, h⟩ := Except.bind_eq_ok.mp h
    obtain ⟨own, hown, h⟩ := Except.bind_eq_ok.mp h
    obtain ⟨assigned, ha, h⟩ := Except.bind_eq_ok.mp h
    obtain rfl := Except.ok.inj h
    rw [Statement.rename, Term.renameAll_eq, Assignment.renameAll_eq, fixed_of_ok conditions hown,
      assignments_fixed hvalues ha, mapped htarget ht]

end Contexts

/-! ### Statements of executable queries -/

namespace Executable

variable {m : Machine} {next : Nat} {q : Executable}

theorem withParams_fixed (hρ : ρ.Fixes w.extent) (hm : m.StoresKnown w) {st s : Statement}
    (hst : st.rename ρ = st) (h : q.withParams m st = .ok s) : s.rename ρ = s := by
  have supplied : (m.mapping q.params).map (fun x => (x.1, x.2.carried.rename ρ)) =
      (m.mapping q.params).map fun x => (x.1, x.2.carried) := by
    refine List.map_congr_left fun x hx => congrArg (Prod.mk x.1) ?_
    exact carried_made (q.params.mapping_known hm x hx).2 ρ hρ
  unfold withParams at h
  dsimp only at h
  split at h
  · obtain rfl := Except.ok.inj h
    exact hst
  split at h
  · cases h
  cases st with
  | select t =>
    obtain rfl := Except.ok.inj h
    obtain ⟨items, distinct, roots, joins, conditions, groupBy, having, orderBy, correlation, limit,
      offset, held⟩ := t
    simp only [Statement.rename, Select.rename, Statement.select.injEq, Select.mk.injEq] at hst
    simp only [Statement.rename, Select.rename, hst, List.map_append, List.map_map,
      Function.comp_def, supplied]
  | _ => cases h

theorem withBounds_fixed (first : ρ.number next = next) (second : ρ.number (next + 1) = next + 1)
    {st s : Statement} (hst : st.rename ρ = st) (h : q.withBounds next st = .ok s) :
    s.rename ρ = s := by
  have renamed := q.withBounds_rename second first st
  rw [hst] at renamed
  exact fixed_of_ok renamed h

theorem statementTo_fixed (hρ : ρ.Fixes w.extent) (hm : m.StoresKnown w)
    (first : ρ.number next = next) (second : ρ.number (next + 1) = next + 1) (depth : Nat)
    {s : Statement} (h : q.statementTo m next depth = .ok s) : s.rename ρ = s := by
  induction depth generalizing q s with
  | zero => cases h
  | succ depth ih =>
    have found {c : ContextId} {x : Context}
        (h : (m.context? c).elim (.error .external) .ok = (.ok x : Except Error Context)) :
        x.rename ρ = x := by
      cases hc : m.context? c with
      | none => rw [hc] at h; cases h
      | some y =>
        rw [hc] at h
        obtain rfl := Except.ok.inj h
        exact Context.Known.fixed hρ (hm.contexts _ (List.mem_of_getElem? hc))
    have supplied {bare : Statement} (hbare : bare.rename ρ = bare) {typed : Bool}
        (h : (do
          let s ← q.withParams m bare
          if typed then q.withBounds next s else .ok s) = .ok s) :
        s.rename ρ = s := by
      obtain ⟨t, ht, h⟩ := Except.bind_eq_ok.mp h
      have fixed := withParams_fixed hρ hm hbare ht
      split at h
      · exact withBounds_fixed first second fixed h
      · obtain rfl := Except.ok.inj h
        exact fixed
    unfold statementTo at h
    cases hk : q.kind with
    | base =>
      rw [hk] at h
      cases h
    | typed | bulk =>
      rw [hk] at h
      cases hq : q.query with
      | context c =>
        rw [hq] at h
        obtain ⟨x, hx, h⟩ := Except.bind_eq_ok.mp h
        obtain ⟨bare, hbare, h⟩ := Except.bind_eq_ok.mp h
        exact supplied (x.statement_fixed (found hx) hbare) h
      | query inner =>
        rw [hq] at h
        obtain ⟨x, _, h⟩ := Except.bind_eq_ok.mp h
        obtain ⟨bare, hbare, h⟩ := Except.bind_eq_ok.mp h
        exact supplied (ih hbare) h
      | _ =>
        rw [hq] at h
        cases h

theorem statement_fixed (hρ : ρ.Fixes w.extent) (hm : m.StoresKnown w)
    (first : ρ.number next = next) (second : ρ.number (next + 1) = next + 1) {s : Statement}
    (h : q.statement m next = .ok s) : s.rename ρ = s :=
  statementTo_fixed hρ hm first second 1000 h

end Executable

end FluentQuery
