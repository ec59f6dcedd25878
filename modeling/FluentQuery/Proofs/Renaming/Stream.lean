import FluentQuery.Proofs.Renaming.Expression

/-! Making streams and query types mirrors itself. -/

namespace FluentQuery

open Sql

variable {ρ : Renaming} {F : Footprint} {framed : Bool}

/-! ### Streams -/

theorem itemsOf_mirror {v : Value} (hv : v.Within F) :
    Mirror ρ F (itemsOf v) (itemsOf (v.rename ρ)) := by
  cases v with
  | list id items | tuple id items | row id items =>
    exact .pure_of (Value.allWithin_iff.mp hv) (Value.renameAll_eq items)
  | text id s => exact .mapM_same (fun c => newText_mirror (String.singleton c)) _
  | mapping i =>
    refine (MappingId.read_mirror hv).bind fun fields _ => .pure_of (fun w hw => ?_) ?_
    · obtain ⟨x, _, rfl⟩ := List.mem_map.mp hw
      trivial
    · simp [rename, ρ.number_zero]
  | _ => exact .fail _

theorem selector_mirror (what : String) {target : Value} (ht : target.Within F) :
    Mirror ρ F (selector what target) (selector what (target.rename ρ)) := by
  have function : Mirror ρ F
      (do
        if target.isCallable then return Projection.function target
        else fail (.notSelector what (← classNow target)))
      (do
        if (target.rename ρ).isCallable then return Projection.function (target.rename ρ)
        else fail (.notSelector what (← classNow (target.rename ρ)))) := by
    refine .ite (by rw [target.isCallable_rename]) (.pure (a := Projection.function target) ht) ?_
    exact (classNow_mirror ht).bind fun _ _ => .fail _
  refine .guarded (by rw [target.isNull_rename]) ?_
  cases target with
  | text id s => exact .pure (a := Projection.named (.text id s)) ht
  | member a => exact .pure (a := Projection.named (.member a)) ht
  | _ => exact function

theorem expressionSelector_mirror (what : String) {target : Value} (ht : target.Within F) :
    Mirror ρ F (expressionSelector what target) (expressionSelector what (target.rename ρ)) := by
  cases target with
  | ref r => exact .pure (a := Projection.held r) ht
  | _ => exact selector_mirror what ht

theorem requireUnbound_mirror {v : Value} (hv : v.Within F) :
    Mirror ρ F (requireUnbound v) (requireUnbound (v.rename ρ)) := by
  cases v with
  | ref r => exact (RefId.isBound_mirror hv).bind fun b _ => .ite Iff.rfl (.fail _) (.pure hv)
  | _ => exact .fail _

theorem requireBound_mirror (b : Bounding) (v : Value) :
    Mirror ρ F (requireBound b v) (requireBound b (v.rename ρ)) := by
  have bound : Counterpart ρ F v.bound? (v.rename ρ).bound? :=
    ⟨by rw [v.bound?_rename]; cases v.bound? <;> rfl, fun _ _ => trivial⟩
  exact (orExternal_mirror bound).bind fun x _ => .guarded Iff.rfl (.pure trivial)

theorem fieldOf_mirror {v : Value} (hv : v.Within F) :
    Mirror ρ F (fieldOf v) (fieldOf (v.rename ρ)) := by
  refine (itemsOf_mirror hv).bind fun items hi => ?_
  match items with
  | [] => exact .fail _
  | [key] | key :: _ :: _ :: _ => cases key <;> exact .fail _
  | [key, w] =>
    cases key with
    | text id k => exact .pure (a := (k, w)) ⟨trivial, hi w (by simp)⟩
    | _ => exact .fail _

theorem fieldsOf_mirror {v : Value} (hv : v.Within F) :
    Mirror ρ F (fieldsOf v) (fieldsOf (v.rename ρ)) := by
  have listed : Mirror ρ F (do return override [] (← (← itemsOf v).mapM fieldOf))
      (do return override [] (← (← itemsOf (v.rename ρ)).mapM fieldOf)) := by
    refine (itemsOf_mirror hv).bind fun items hi => ?_
    refine (MirrorOn.mapM hi fun w hw => fieldOf_mirror hw).bind fun fields hf => ?_
    refine .pure_of (fun x hx => ⟨trivial, ?_⟩) (override_rename [] fields)
    exact within_override (fun _ h => by cases h) (fun x hx => (hf x hx).2) x hx
  refine (truth_mirror hv).bind fun t _ => .ite Iff.rfl ?_ ?_
  · exact .pure_of (fun _ h => by cases h) rfl
  · cases v with
    | mapping i => exact MappingId.read_mirror hv
    | _ => exact listed


theorem Configurer.extend_mirror {v : Value} (hv : v.Within F) {step : Step}
    (hp : step.Within F) :
    Mirror ρ F (Configurer.extend v step) (Configurer.extend (v.rename ρ) (step.rename ρ)) := by
  refine .fresh fun id => ?_
  cases v with
  | configurer c =>
    refine .pure_of (a := Value.configurer ⟨id, c.origin, c.steps ++ [step]⟩) ⟨?_, ?_⟩ ?_
    · exact Configurer.Within.origin hv
    · refine Step.allWithin_iff.mpr (List.forall_mem_append.mpr ⟨?_, by simpa using hp⟩)
      exact Configurer.Within.steps hv
    · simp only [Value.rename, Configurer.rename, c.rename_origin, c.rename_steps, Renamable.rename,
        Step.renameAll_eq, List.map_append, List.map_singleton]
  | _ =>
    refine .pure_of (a := Value.configurer ⟨id, .function _, [step]⟩) ⟨hv, ?_⟩ rfl
    exact Step.allWithin_iff.mpr (by simpa using hp)

namespace Stream

theorem new_mirror (kind : StreamKind) (first max : Value)
    {session queryType configurer params options : Value}
    (hs : session.Within F) (ht : queryType.Within F) (hc : configurer.Within F)
    (hp : params.Within F) (ho : options.Within F) :
    Mirror ρ F (Stream.new kind session queryType configurer first max params options)
      (Stream.new kind (session.rename ρ) (queryType.rename ρ) (configurer.rename ρ)
        (first.rename ρ) (max.rename ρ) (params.rename ρ) (options.rename ρ)) := by
  refine .guarded (by rw [session.isNull_rename]) ?_
  refine .guarded (by rw [queryType.isNull_rename]) ?_
  refine .guarded (by rw [configurer.isNull_rename]) ?_
  refine (requireBound_mirror _ first).bind fun first _ => ?_
  refine (requireBound_mirror _ max).bind fun max _ => ?_
  refine (fieldsOf_mirror hp).bind fun params hp => (fieldsOf_mirror ho).bind fun options ho => ?_
  refine (MirrorOn.forM hp fun x hx => register_mirror x.2).bind fun _ _ => .fresh fun id => ?_
  refine .pure_of (a := Stream.mk id kind session queryType configurer first max params options)
    (within_of hs ht hc (fun x hx => (hp x hx).2) fun x hx => (ho x hx).2) ?_
  simp only [Stream.rename, Renamable.rename, Value.renameFields_eq]
  rfl

variable {s : Stream} (hs : s.Within F)

include hs

theorem extend_mirror (step : Step) (hp : step.Within F) :
    Mirror ρ F (s.extend step) ((s.rename ρ).extend (step.rename ρ)) := by
  obtain ⟨id, kind, session, queryType, configurer, first, max, params, options⟩ := s
  obtain ⟨hs, ht, hc, rest⟩ := hs
  refine (Configurer.extend_mirror hc hp).bind fun c hc => .fresh fun id => ?_
  exact .pure (a := Stream.mk id kind session queryType c first max params options) ⟨hs, ht, hc, rest⟩

omit hs in
theorem requireUnbounded_mirror (operation : String) :
    Mirror ρ F (s.requireUnbounded operation) ((s.rename ρ).requireUnbounded operation) :=
  .ite (by rw [s.rename_firstResult, s.rename_maxResults]) (.fail _) (.pure trivial)

/-! ### Every stream -/

theorem bind_mirror {ref : Value} (function : Value) (hr : ref.Within F) (hf : function.Within F) :
    Mirror ρ F (s.bind ref function) ((s.rename ρ).bind (ref.rename ρ) (function.rename ρ)) := by
  have bound {p : Projection} (hp : p.Within F) :
      Mirror ρ F (do s.extend (.bind (← requireUnbound ref) p))
        (do (s.rename ρ).extend (.bind (← requireUnbound (ref.rename ρ)) (p.rename ρ))) :=
    (requireUnbound_mirror hr).bind fun r hr => extend_mirror hs (.bind r p) ⟨hr, hp⟩
  refine .guarded (by rw [ref.isNull_rename]) (.ite (by rw [function.isNull_rename]) ?_ ?_)
  · exact bound (p := .whole) trivial
  · exact (selector_mirror _ hf).bind fun p hp => bound hp

theorem peek_mirror {peeker : Value} (hp : peeker.Within F) :
    Mirror ρ F (s.peek peeker) ((s.rename ρ).peek (peeker.rename ρ)) :=
  .guarded (by rw [peeker.isNull_rename]) (extend_mirror hs (.peek peeker) hp)

theorem filter_mirror {predicate : Value} (hp : predicate.Within F) :
    Mirror ρ F (s.filter predicate) ((s.rename ρ).filter (predicate.rename ρ)) := by
  refine (selector_mirror _ hp).bind fun p hp => (requireUnbounded_mirror _).bind fun _ _ => ?_
  rw [s.rename_queryType]
  exact extend_mirror hs (.filter s.queryType p) ⟨hs.queryType, hp⟩

omit hs in
theorem requireNatural_mirror (b : Bounding) (v : Value) :
    Mirror ρ F (requireNatural b v) (requireNatural b (v.rename ρ)) := by
  unfold requireNatural
  rw [v.bound?_rename]
  split
  · exact .fail _
  · split
    · exact .ite Iff.rfl (.fail _) (.pure trivial)
    · exact .fail _

theorem limit_mirror (v : Value) : Mirror ρ F (s.limit v) ((s.rename ρ).limit (v.rename ρ)) := by
  refine (requireNatural_mirror _ v).bind fun x _ => ?_
  rw [s.rename_maxResults]
  refine (extend_mirror hs (.bounded .limit) trivial).bind fun t ht => ?_
  obtain ⟨id, kind, session, queryType, configurer, first, max, params, options⟩ := t
  exact .pure (a := Stream.mk id kind session queryType configurer first _ params options) ht

theorem skip_mirror (v : Value) : Mirror ρ F (s.skip v) ((s.rename ρ).skip (v.rename ρ)) := by
  have skipped (x : Bound) :
      Mirror ρ F (do return { ← s.extend (.bounded .skip) with firstResult := x })
        (do return { ← (s.rename ρ).extend (.bounded .skip) with firstResult := x }) := by
    refine (extend_mirror hs (.bounded .skip) trivial).bind fun t ht => ?_
    obtain ⟨id, kind, session, queryType, configurer, first, max, params, options⟩ := t
    exact .pure (a := Stream.mk id kind session queryType configurer x max params options) ht
  refine (requireNatural_mirror _ v).bind fun x _ => ?_
  have sum : Counterpart ρ F (s.firstResult.add? x) (s.firstResult.add? x) :=
    ⟨by cases s.firstResult.add? x <;> rfl, fun _ _ => trivial⟩
  rw [s.rename_firstResult]
  refine .ite Iff.rfl ?_ (skipped x)
  exact (orExternal_mirror sum).bind fun y _ => skipped y

theorem withParams_mirror {params : List (String × Value)} (hp : ∀ x ∈ params, x.2.Within F) :
    Mirror ρ F (s.withParams params)
      ((s.rename ρ).withParams (Value.renameEntries ρ params)) := by
  have entries : Renamable.Within F params := fun x hx => ⟨trivial, hp x hx⟩
  refine (MirrorOn.forM entries fun x _ => register_mirror x.2).bind fun _ _ => .fresh fun id => ?_
  obtain ⟨_, kind, session, queryType, configurer, first, max, old, options⟩ := s
  have params' := within_override hs.params hp
  refine .pure_of
    (a := Stream.mk id kind session queryType configurer first max (override old params) options)
    (within_of hs.session hs.queryType hs.configurer params' hs.options) ?_
  simp only [Stream.rename, Renamable.rename, Value.renameFields_eq, override_rename]

theorem withOptions_mirror {options : List (String × Value)} (ho : ∀ x ∈ options, x.2.Within F) :
    Mirror ρ F (s.withOptions options)
      ((s.rename ρ).withOptions (Value.renameEntries ρ options)) := by
  refine .fresh fun id => ?_
  obtain ⟨_, kind, session, queryType, configurer, first, max, params, old⟩ := s
  have options' := within_override hs.options ho
  refine .pure_of
    (a := Stream.mk id kind session queryType configurer first max params (override old options))
    (within_of hs.session hs.queryType hs.configurer hs.params options') ?_
  simp only [Stream.rename, Renamable.rename, Value.renameFields_eq, override_rename]

/-! ### Searches and updates -/

theorem distinct_mirror : Mirror ρ F s.distinct (s.rename ρ).distinct :=
  (requireUnbounded_mirror _).bind fun _ _ => extend_mirror hs .distinct trivial

theorem sort_mirror {o : Ordering} (ho : o.Within F) :
    Mirror ρ F (s.sort o) ((s.rename ρ).sort (o.rename ρ)) :=
  (requireUnbounded_mirror _).bind fun _ _ => extend_mirror hs (.sort o) ho

theorem orderBy_mirror {target : Value} (ascending : Value) (ht : target.Within F) (ha : ascending.Within F) :
    Mirror ρ F (s.orderBy target ascending)
      ((s.rename ρ).orderBy (target.rename ρ) (ascending.rename ρ)) :=
  (expressionSelector_mirror _ ht).bind fun p hp =>
    sort_mirror (o := .keys [(p, ascending)]) hs ⟨hp, ha, trivial⟩

omit hs in
theorem orderKeys_mirror (position : Nat) {orders : List Value} (ho : ∀ v ∈ orders, v.Within F) :
    Mirror ρ F (orderKeys position orders)
      (orderKeys position (orders.map (Value.rename ρ))) := by
  induction orders generalizing position with
  | nil => exact .pure_of (fun _ h => by cases h) rfl
  | cons v rest ih =>
    obtain ⟨hv, hrest⟩ := List.forall_mem_cons.mp ho
    cases v with
    | tuple id items =>
      match items with
      | [] | [_] | _ :: _ :: _ :: _ => exact .fail _
      | [key, ascending] =>
        obtain ⟨hk, ha, _⟩ := hv
        refine (selector_mirror _ hk).bind fun p hp => (ih (position + 1) hrest).bind fun ps hps => ?_
        exact .pure_of (a := (p, ascending) :: ps) (List.forall_mem_cons.mpr ⟨⟨hp, ha⟩, hps⟩) rfl
    | _ => exact .fail _

theorem orderByAttributes_mirror {orders : List Value} (ho : ∀ v ∈ orders, v.Within F) :
    Mirror ρ F (s.orderByAttributes orders)
      ((s.rename ρ).orderByAttributes (orders.map (Value.rename ρ))) := by
  refine .guarded (by rw [List.isEmpty_map]) ?_
  refine (orderKeys_mirror 1 ho).bind fun keys hk => ?_
  have := sort_mirror (ρ := ρ) (o := .keys keys) hs (Projection.keysWithin_iff.mpr hk)
  rwa [Ordering.rename, Projection.renameKeys_eq] at this

theorem orderByListed_mirror {f : Value} (hf : f.Within F) :
    Mirror ρ F (s.orderByListed f) ((s.rename ρ).orderByListed (f.rename ρ)) :=
  .guarded (by rw [f.isNull_rename]) (sort_mirror (o := .listed f) hs hf)

theorem group_mirror {g : Grouping} (hg : g.Within F) :
    Mirror ρ F (s.group g) ((s.rename ρ).group (g.rename ρ)) :=
  (requireUnbounded_mirror _).bind fun _ _ => extend_mirror hs (.group g) hg

theorem groupBy_mirror {target : Value} (ht : target.Within F) :
    Mirror ρ F (s.groupBy target) ((s.rename ρ).groupBy (target.rename ρ)) :=
  (expressionSelector_mirror _ ht).bind fun p hp => group_mirror (g := .key p) hs hp

theorem groupByListed_mirror {f : Value} (hf : f.Within F) :
    Mirror ρ F (s.groupByListed f) ((s.rename ρ).groupByListed (f.rename ρ)) :=
  .guarded (by rw [f.isNull_rename]) (group_mirror (g := .listed f) hs hf)

theorem having_mirror {predicate : Value} (hp : predicate.Within F) :
    Mirror ρ F (s.having predicate) ((s.rename ρ).having (predicate.rename ρ)) :=
  (selector_mirror _ hp).bind fun p hp => (requireUnbounded_mirror _).bind fun _ _ =>
    extend_mirror hs (.having p) hp

theorem addRoot_mirror {ref entity : Value} (hr : ref.Within F) (he : entity.Within F) :
    Mirror ρ F (s.addRoot ref entity) ((s.rename ρ).addRoot (ref.rename ρ) (entity.rename ρ)) := by
  refine .guarded (by rw [ref.isNull_rename]) (.guarded (by rw [entity.isNull_rename]) ?_)
  exact (requireUnbound_mirror hr).bind fun r hr => (requireUnbounded_mirror _).bind fun _ _ =>
    extend_mirror hs (.addRoot r entity) ⟨hr, he⟩

theorem join_mirror {key : Value} (outer : Value) (hk : key.Within F) (ho : outer.Within F) :
    Mirror ρ F (s.join key outer) ((s.rename ρ).join (key.rename ρ) (outer.rename ρ)) :=
  .guarded (by rw [key.isNull_rename]) ((requireUnbounded_mirror _).bind fun _ _ =>
    extend_mirror hs (.join key outer) ⟨hk, ho⟩)

theorem map_mirror {target : Value} (ht : target.Within F) :
    Mirror ρ F (s.map target) ((s.rename ρ).map (target.rename ρ)) :=
  (selector_mirror _ ht).bind fun p hp => extend_mirror hs (.map p) hp

theorem count_mirror : Mirror ρ F s.count (s.rename ρ).count :=
  extend_mirror hs .count trivial

theorem assign_mirror {key v : Value} (hk : key.Within F) (hv : v.Within F) :
    Mirror ρ F (s.assign key v) ((s.rename ρ).assign (key.rename ρ) (v.rename ρ)) :=
  .guarded (by rw [key.isNull_rename]) ((requireUnbounded_mirror _).bind fun _ _ =>
    extend_mirror hs (.assign key v) ⟨hk, hv⟩)

end Stream

namespace QueryType

theorem new_mirror (purpose : Purpose) (entity : Value) (he : entity.Within F) :
    Mirror ρ F (QueryType.new purpose entity) (QueryType.new purpose (entity.rename ρ)) :=
  .guarded (by rw [entity.isNull_rename])
    (.fresh fun id => .pure (a := QueryType.mk id purpose entity) he)

variable {t : QueryType}

theorem createContext_mirror [F.Contextual] (ht : t.Within F) :
    MirrorAt framed ρ F t.createContext (t.rename ρ).createContext := by
  obtain ⟨id, purpose, entity⟩ := t
  cases purpose with
  | search =>
    have blank : ContextKind.Within F (.query .empty []) := ⟨.empty, fun _ h => by cases h⟩
    exact ContextId.new_mirror (Context.ofKind_within blank)
  | delete => exact ContextId.new_mirror (Context.ofKind_within (k := .delete entity) ht)
  | update =>
    have blank : ContextKind.Within F (.update entity []) := ⟨ht, fun _ h => by cases h⟩
    exact ContextId.new_mirror (Context.ofKind_within blank)

theorem restrict_mirror {query restriction : Value} (hq : query.Within F)
    (hr : restriction.Within F) :
    Mirror ρ F (QueryType.restrict query restriction)
      (QueryType.restrict (query.rename ρ) (restriction.rename ρ)) := by
  refine .guarded (by rw [query.isNull_rename]) (.guarded (by rw [restriction.isNull_rename]) ?_)
  exact (asContext_mirror hq).bind fun c hc =>
    ContextId.update_mirror hc (Context.restrict_alike hr)

variable {query selection : Value}

theorem select_mirror (hq : query.Within F) (hs : selection.Within F) :
    Mirror ρ F (t.select query selection)
      ((t.rename ρ).select (query.rename ρ) (selection.rename ρ)) := by
  obtain ⟨id, purpose, entity⟩ := t
  have refused {v : Value} (hv : v.Within F) : Mirror (α := Value) ρ F
      (do fail (.cannotSelect (← classNow v))) (do fail (.cannotSelect (← classNow (v.rename ρ)))) :=
    (classNow_mirror hv).bind fun _ _ => .fail _
  cases purpose with
  | delete | update => exact .pure hq
  | search =>
    cases query with
    | context c =>
      refine (ContextId.read_mirror hq).bind fun x _ => ?_
      simp only [Renamable.rename]
      rw [show (x.rename ρ).kind.className = x.kind.className from x.kind.className_rename]
      refine .guarded (by rw [x.isSelecting_rename]) ?_
      exact (ContextId.update_mirror hq (Context.select_alike hs)).bind fun _ _ => .pure hq
    | _ => exact refused hq

theorem createQuery_mirror {session : Value} (hs : session.Within F) (hq : query.Within F) :
    MirrorAt framed ρ F (t.createQuery session query)
      ((t.rename ρ).createQuery (session.rename ρ) (query.rename ρ)) := by
  refine .guarded (by rw [session.isNull_rename]) (.guarded (by rw [query.isNull_rename]) ?_)
  have none : ∀ x ∈ ([] : List (String × Value)), x.2.Within F := fun _ h => by cases h
  refine (MappingId.new_mirror none).bind fun params hp => ?_
  refine (MappingId.new_mirror none).bind fun options ho => ?_
  rw [t.rename_purpose]
  exact QueryId.new_mirror (q := ⟨_, session, query, params, options, .unset, .unset⟩) ⟨hs, hq, hp, ho⟩

end QueryType

/-! ### Entry points -/

namespace Stream

theorem start_mirror {session : Value} {t : QueryType} {c : Configurer} (hs : session.Within F)
    (ht : t.Within F) (hc : c.Within F) :
    Mirror ρ F (start session t c) (start (session.rename ρ) (t.rename ρ) (c.rename ρ)) := by
  unfold start
  rw [t.rename_purpose]
  refine .fresh fun id => ?_
  exact .pure (a := Stream.mk id (.of t.purpose) session (.queryType t) (.configurer c) .unset .unset
    [] []) ⟨hs, ht, hc, trivial, trivial⟩

variable {session : Value} (hs : session.Within F)

include hs

theorem ofEntity_mirror (purpose : Purpose) {entity : Value} (he : entity.Within F) :
    Mirror ρ F (ofEntity purpose session entity)
      (ofEntity purpose (session.rename ρ) (entity.rename ρ)) := by
  refine .guarded (by rw [entity.isNull_rename]) ?_
  refine (QueryType.new_mirror purpose _ he).bind fun t ht => .fresh fun id => ?_
  exact start_mirror (c := ⟨id, .root entity, []⟩) hs ht ⟨he, trivial⟩

omit hs in
theorem classOf?_rename (v : Value) : classOf? (v.rename ρ) = classOf? v := by
  cases v with
  | member a => obtain ⟨owner, c | r⟩ := a <;> rfl
  | _ => rfl

theorem ofRoot_mirror {root : Value} (hr : root.Within F) :
    Mirror ρ F (ofRoot session root) (ofRoot (session.rename ρ) (root.rename ρ)) := by
  refine .guarded (by rw [root.isNull_rename]) ?_
  rw [classOf?_rename]
  cases classOf? root with
  | none => exact refused_mirror hr .notMapped
  | some e =>
    refine (QueryType.new_mirror .search (.mapped ⟨e, none⟩) trivial).bind fun t ht =>
      .fresh fun id => ?_
    exact start_mirror (c := ⟨id, .correlated root, []⟩) hs ht ⟨hr, trivial⟩

end Stream

end FluentQuery
