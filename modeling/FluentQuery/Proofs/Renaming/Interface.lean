import FluentQuery.Interface
import FluentQuery.Proofs.Renaming.Building

/-! Calls of the library by name mirror themselves, except for the methods that send a statement to a
session. -/

namespace FluentQuery

open Sql

variable {ρ : Renaming} {F : Footprint}

/-- The methods that make a query context and give it. -/
def creatingMethods : List String :=
  ["create_query", "create_delete", "create_update", "create_criteria_query"]

/-- The methods of a stream that run its configuration. -/
def Stream.buildingMethods : List String :=
  ["configure", "to_criteria_query", "to_query", "as_subquery", "exists"]

/-- The classes of query contexts. -/
def contextClasses : List String :=
  ["CommonCriteria", "AbstractQuery", "CriteriaQuery", "Subquery", "CriteriaDelete",
    "CriteriaUpdate"]

/-! ### Arguments -/

instance : Renamable ArgList where
  rename ρ a := ⟨a.positional.map (Value.rename ρ), Value.renameEntries ρ a.keyword⟩
  Within F a := (∀ v ∈ a.positional, v.Within F) ∧ ∀ x ∈ a.keyword, x.2.Within F

namespace ArgList

variable {a : ArgList} (ha : Within F a)

include ha

omit ha in
/-- What a parameter gets, by its place or by its name. -/
theorem value_rename (name : String) (i : Nat) :
    (if i < (Renamable.rename ρ a).positional.length then (Renamable.rename ρ a).positional[i]?
      else (Renamable.rename ρ a).keyword.lookup name) =
    (if i < a.positional.length then a.positional[i]? else a.keyword.lookup name).map
      (Value.rename ρ) := by
  simp only [Renamable.rename, List.length_map, Value.renameEntries, lookup_map_values,
    List.getElem?_map]
  split <;> rfl

omit ha in
theorem values_rename (names : List String) :
    (names.zipIdx.map fun (name, i) =>
      if i < (Renamable.rename ρ a).positional.length then (Renamable.rename ρ a).positional[i]?
      else (Renamable.rename ρ a).keyword.lookup name) =
    (names.zipIdx.map fun (name, i) =>
      if i < a.positional.length then a.positional[i]? else a.keyword.lookup name).map
        (Option.map (Value.rename ρ)) := by
  rw [List.map_map]
  exact List.map_congr_left fun x _ => value_rename x.1 x.2

theorem values_within (names : List String) : Renamable.Within F
    (names.zipIdx.map fun (name, i) =>
      if i < a.positional.length then a.positional[i]? else a.keyword.lookup name) := by
  intro o ho v hv
  obtain ⟨⟨name, i⟩, _, rfl⟩ := List.mem_map.mp ho
  dsimp only at hv
  split at hv
  · exact ha.1 v (List.mem_of_getElem? hv)
  · exact Value.within_of_lookup ha.2 hv

theorem bind_mirror (s : Signature) : Mirror ρ F (a.bind s) ((Renamable.rename ρ a).bind s) := by
  have length : (Renamable.rename ρ a).positional.length = a.positional.length := List.length_map _
  refine .guarded (by rw [length]) (.guarded ?_ ?_)
  · simp only [length]
    simp [Renamable.rename, Value.renameEntries, Function.comp_def]
  · dsimp only
    rw [values_rename]
    refine .guarded ?_ (.pure (values_within ha _))
    rw [← List.map_take (f := Option.map _), List.any_map]
    simp only [Function.comp_def, Option.isNone_map]

/-- A call with one argument that must be given and one that may be left out. -/
theorem withOptional_mirror (s : Signature) {k l : Value → Option Value → Run Value}
    (h : ∀ {v : Value} {o : Option Value}, v.Within F → Renamable.Within F o →
      Mirror ρ F (k v o) (l (v.rename ρ) (o.map (Value.rename ρ)))) :
    Mirror ρ F
      (do
        match ← a.bind s with
        | [some v, o] => k v o
        | _ => fail .external)
      (do
        match ← (Renamable.rename ρ a).bind s with
        | [some v, o] => l v o
        | _ => fail .external) := by
  refine (bind_mirror ha s).bind fun vs hv => ?_
  match vs with
  | [] => exact .fail _
  | [v] | v :: _ :: _ :: _ => cases v <;> exact .fail _
  | [none, _] => exact .fail _
  | [some v, o] => exact h (hv (some v) (by simp) v rfl) (hv o (by simp))

theorem exactly_mirror (required : List String) :
    Mirror ρ F (a.exactly required) ((Renamable.rename ρ a).exactly required) := by
  refine (bind_mirror ha _).bind fun vs hv => .pure_of (fun v h => ?_) ?_
  · obtain ⟨o, ho, found⟩ := List.mem_filterMap.mp h
    exact hv o ho v found
  · simp [Renamable.rename, List.filterMap_map, List.map_filterMap]

theorem requireNone_mirror : Mirror ρ F a.requireNone (Renamable.rename ρ a).requireNone :=
  (exactly_mirror ha []).discard

theorem one_mirror (name : String) :
    Mirror ρ F (a.one name) ((Renamable.rename ρ a).one name) := by
  refine (exactly_mirror ha [name]).bind fun vs hv => ?_
  match vs with
  | [] | _ :: _ :: _ => exact .fail _
  | [v] => exact .pure (hv v (by simp))

theorem two_mirror (first second : String) :
    Mirror ρ F (a.two first second) ((Renamable.rename ρ a).two first second) := by
  refine (exactly_mirror ha [first, second]).bind fun vs hv => ?_
  match vs with
  | [] | [_] | _ :: _ :: _ :: _ => exact .fail _
  | [v, w] => exact .pure (a := (v, w)) ⟨hv v (by simp), hv w (by simp)⟩

theorem rest_mirror : Mirror ρ F a.rest (Renamable.rename ρ a).rest := by
  refine .ite ?_ (.pure ha.1) (.fail _)
  rw [show (Renamable.rename ρ a).keyword.isEmpty = a.keyword.isEmpty from List.isEmpty_map]

theorem fields_mirror : Mirror (α := List (String × Value)) ρ F a.fields (Renamable.rename ρ a).fields := by
  refine .ite ?_ (.pure fun x hx => ⟨trivial, ha.2 x hx⟩) (.fail _)
  rw [show (Renamable.rename ρ a).positional.isEmpty = a.positional.isEmpty from List.isEmpty_map]

theorem ownFields_mirror : Mirror ρ F a.ownFields (Renamable.rename ρ a).ownFields := by
  refine (fields_mirror ha).bind fun fields hf => .guarded ?_ (.pure hf)
  simp [Renamable.rename, Function.comp_def]

end ArgList

/-! ### Refs, builders, contexts and streams -/

/-- A stream that a call gives. -/
theorem givenStream_mirror {x y : Run Stream} (h : Mirror ρ F x y) :
    Mirror ρ F (do return Value.stream (← x)) (do return Value.stream (← y)) :=
  h.bind fun s hs => .pure (a := Value.stream s) hs

section Methods

variable {a : ArgList} (ha : Renamable.Within F a)

include ha

theorem RefId.invoke_mirror {r : RefId} (hr : F.address .refs r.index) (method : String) :
    Mirror ρ F (r.invoke method a) ((r.rename ρ).invoke method (Renamable.rename ρ a)) := by
  have null : Mirror ρ F (pure Value.null) (pure Value.null) := .pure (a := Value.null) trivial
  unfold RefId.invoke
  split
  · exact (ArgList.one_mirror ha _).bind fun v hv => (bind_mirror hr hv).bind fun _ _ => null
  · exact (ArgList.requireNone_mirror ha).bind fun _ _ => read_mirror hr
  · refine (ArgList.requireNone_mirror ha).bind fun _ _ => (isBound_mirror hr).bind fun b _ => ?_
    exact .pure (a := Value.bool b) trivial
  · exact (ArgList.requireNone_mirror ha).bind fun _ _ => unbind_mirror.bind fun _ _ => null
  · exact .fail _

omit ha in
theorem newContext_mirror [F.Contextual] {k : ContextKind} (hk : k.Within F) :
    Mirror ρ F (newContext k) (newContext (k.rename ρ)) :=
  (ContextId.new_mirror (Context.ofKind_within hk)).bind fun c hc =>
    .pure (a := Value.context c) hc

omit ha in
theorem newBulk_mirror [F.Contextual] (kind : Value → ContextKind)
    (renamed : ∀ v, kind (v.rename ρ) = (kind v).rename ρ)
    (within : ∀ {v}, v.Within F → (kind v).Within F) {entity : Value} (he : entity.Within F) :
    Mirror ρ F (newBulk kind entity) (newBulk kind (entity.rename ρ)) := by
  refine .guarded (by rw [entity.isNull_rename]) ?_
  rw [renamed]
  exact newContext_mirror (within he)

omit ha in
theorem newDelete_mirror [F.Contextual] {entity : Value} (he : entity.Within F) :
    Mirror ρ F (newBulk .delete entity) (newBulk .delete (entity.rename ρ)) :=
  newBulk_mirror .delete (fun _ => rfl) (fun h => h) he

omit ha in
theorem newUpdate_mirror [F.Contextual] {entity : Value} (he : entity.Within F) :
    Mirror ρ F (newBulk (.update · []) entity) (newBulk (.update · []) (entity.rename ρ)) :=
  newBulk_mirror (.update · []) (fun _ => rfl) (fun h => ⟨h, fun _ h => by cases h⟩) he

omit ha in
theorem newSearch_mirror [F.Contextual] :
    Mirror ρ F (newContext (.query .empty [])) (newContext (.query .empty [])) :=
  newContext_mirror (k := .query .empty []) ⟨.empty, fun _ h => by cases h⟩

omit ha in
theorem newSubquery_mirror [F.Contextual] {parent : Value} (hp : parent.Within F) :
    Mirror ρ F (newContext (.subquery .empty parent [] []))
      (newContext (.subquery .empty (parent.rename ρ) [] [])) :=
  newContext_mirror (k := .subquery .empty parent [] []) ⟨.empty, hp, fun _ h => by cases h⟩

theorem invokeBuilder_mirror {method : String} (new : method ∈ creatingMethods → F.Contextual) :
    Mirror ρ F (invokeBuilder method a) (invokeBuilder method (Renamable.rename ρ a)) := by
  have rows : Mirror ρ F (Expression.call "count" []) (Expression.call "count" []) :=
    Expression.call_mirror "count" [] fun _ h => by cases h
  unfold invokeBuilder
  split
  · exact (ArgList.rest_mirror ha).bind fun vs _ => Expression.connect_mirror .and vs
  · exact (ArgList.one_mirror ha _).bind fun v _ => Expression.sorted_mirror .asc v
  · exact (ArgList.one_mirror ha _).bind fun v _ => Expression.sorted_mirror .desc v
  · refine (ArgList.two_mirror ha _ _).bind fun (v, ascending) hv => ?_
    exact (truth_mirror hv.2).bind fun t _ => Expression.sorted_mirror _ v
  · refine (ArgList.bind_mirror ha _).bind fun vs hv => ?_
    match vs with
    | [] | [none] | none :: _ :: _ | some _ :: _ :: _ => exact rows
    | [some v] =>
      refine .ite (by simp) rows ?_
      exact Expression.call_mirror "count" [v]
        (List.forall_mem_singleton.mpr (hv (some v) (by simp) v rfl))
  · exact (ArgList.one_mirror ha _).bind fun v _ => Expression.countDistinct_mirror v
  · have := new (by simp [creatingMethods])
    exact (ArgList.requireNone_mirror ha).bind fun _ _ => newSearch_mirror
  · have := new (by simp [creatingMethods])
    exact (ArgList.one_mirror ha _).bind fun v hv => newDelete_mirror hv
  · have := new (by simp [creatingMethods])
    exact (ArgList.one_mirror ha _).bind fun v hv => newUpdate_mirror hv
  · exact .fail _

theorem ContextId.invoke_mirror {c : ContextId} (hc : F.address .contexts c.index)
    (method : String) :
    Mirror ρ F (c.invoke method a) ((c.rename ρ).invoke method (Renamable.rename ρ a)) := by
  have self : Value.Within F (.context c) := hc
  have : F.Contextual := ⟨_, hc⟩
  have changed {f g : Context → Except Error Context} (h : Context.ChangesAlike ρ F f g) :
      Mirror ρ F (do c.update f; return Value.context c)
        (do (c.rename ρ).update g; return Value.context (c.rename ρ)) :=
    (update_mirror hc h).bind fun _ _ => .pure (a := Value.context c) hc
  unfold ContextId.invoke
  refine (read_mirror hc).bind fun x _ => ?_
  simp only [Renamable.rename]
  split
  · exact (ArgList.one_mirror ha _).bind fun v hv => changed (Context.restrict_alike hv)
  · exact (ArgList.requireNone_mirror ha).bind fun _ _ => newSubquery_mirror self
  · refine .guarded ?_ ((ArgList.one_mirror ha _).bind fun v hv => addRoot_mirror hc hv)
    obtain ⟨restriction, kind⟩ := x
    cases kind <;> exact Iff.rfl
  · refine (ArgList.two_mirror ha _ _).bind fun (key, v) hv => ?_
    exact (assign_mirror hc hv.1 hv.2).bind fun _ _ => .pure (a := Value.context c) hc
  · refine (ArgList.one_mirror ha _).bind fun root hv => ?_
    exact (update_mirror hc (Context.correlate_alike hv)).bind fun _ _ => .pure hv
  · exact (ArgList.requireNone_mirror ha).bind fun _ _ => scalar_mirror hc
  · exact (ArgList.requireNone_mirror ha).bind fun _ _ => existence_mirror hc
  · refine .guarded (by rw [x.isQuery_rename]) ?_
    refine (ArgList.one_mirror ha _).bind fun v hv => (itemsOf_mirror hv).bind fun items hi => ?_
    exact changed (Context.orderBy_alike hi)
  · refine .guarded (by rw [x.isSelecting_rename]) ?_
    split
    · refine (ArgList.bind_mirror ha _).bind fun vs hv => ?_
      match vs with
      | [] | [none] | none :: _ :: _ | [some _] | [some _, none] | some _ :: none :: _ :: _
      | [some _, some _] | some _ :: some _ :: _ :: _ :: _ => exact .fail _
      | [some owner, some key, outer] =>
        have hw := hv (some owner) (by simp) owner rfl
        have hk := hv (some key) (by simp) key rfl
        cases outer with
        | none => exact join_mirror hc (.bool false) hw hk trivial
        | some outer => exact join_mirror hc outer hw hk (hv (some outer) (by simp) outer rfl)
    · refine (ArgList.one_mirror ha _).bind fun v hv => (itemsOf_mirror hv).bind fun items hi => ?_
      exact changed (Context.groupBy_alike hi)
    · exact (ArgList.one_mirror ha _).bind fun v hv => changed (Context.having_alike hv)
    · refine (ArgList.bind_mirror ha _).bind fun vs hv => ?_
      match vs with
      | [] | _ :: _ :: _ => exact .fail _
      | [none] => exact changed (Context.distinct_alike (v := .bool true) trivial)
      | [some v] => exact changed (Context.distinct_alike (hv (some v) (by simp) v rfl))
    · exact (ArgList.one_mirror ha _).bind fun v hv => changed (Context.select_alike hv)
    · exact .fail _

theorem QueryType.invoke_mirror {t : QueryType} (ht : t.Within F) {method : String}
    (new : method ∈ creatingMethods → F.Contextual) :
    Mirror ρ F (t.invoke method a) ((t.rename ρ).invoke method (Renamable.rename ρ a)) := by
  unfold QueryType.invoke
  split
  · have := new (by simp [creatingMethods])
    refine (ArgList.one_mirror ha _).bind fun builder _ => ?_
    refine .guarded (by simp) ?_
    refine (requireBuilder_mirror builder).bind fun _ _ => (createContext_mirror ht).bind fun c hc => ?_
    exact .pure (a := Value.context c) hc
  · refine (ArgList.two_mirror ha _ _).bind fun (session, query) hv => ?_
    exact (createQuery_mirror hv.1 hv.2).bind fun q hq => .pure (a := Value.query q) hq
  · refine (ArgList.two_mirror ha _ _).bind fun (query, restriction) hv => ?_
    exact (restrict_mirror hv.1 hv.2).bind fun _ _ => .pure (a := Value.null) trivial
  · exact (ArgList.two_mirror ha _ _).bind fun (query, selection) hv => select_mirror hv.1 hv.2
  · exact .fail _

theorem invokeQueryBuilder_mirror (session : Value) (hs : session.Within F) (method : String) :
    Mirror ρ F (invokeQueryBuilder session method a)
      (invokeQueryBuilder (session.rename ρ) method (Renamable.rename ρ a)) := by
  unfold invokeQueryBuilder
  split
  · exact (ArgList.one_mirror ha _).bind fun v hv => givenStream_mirror (Stream.ofEntity_mirror hs .search hv)
  · exact (ArgList.one_mirror ha _).bind fun v hv => givenStream_mirror (Stream.ofEntity_mirror hs .delete hv)
  · exact (ArgList.one_mirror ha _).bind fun v hv => givenStream_mirror (Stream.ofEntity_mirror hs .update hv)
  · exact (ArgList.one_mirror ha _).bind fun v hv => givenStream_mirror (Stream.ofRoot_mirror hs hv)
  · exact .fail _

end Methods

theorem MappingId.merge_mirror {i : MappingId} (hi : F.address .mappings i.index)
    {given : List Value} (hg : ∀ v ∈ given, v.Within F) {keyword : List (String × Value)}
    (hk : ∀ x ∈ keyword, x.2.Within F) :
    Mirror ρ F (i.merge given keyword)
      ((i.rename ρ).merge (given.map (Value.rename ρ)) (Value.renameEntries ρ keyword)) := by
  have add {x : String × Value} (hx : x.2.Within F) :
      Mirror ρ F (do register x.2; i.update [x])
        (do register (x.2.rename ρ); (i.rename ρ).update [(x.1, x.2.rename ρ)]) :=
    (register_mirror x.2).bind fun _ _ => update_mirror hi (List.forall_mem_singleton.mpr hx)
  have rest : Mirror ρ F (keyword.forM fun x => do register x.2; i.update [x])
      ((Value.renameEntries ρ keyword).forM fun x => do register x.2; (i.rename ρ).update [x]) :=
    .forM (x := keyword) (fun x hx => ⟨trivial, hk x hx⟩) fun x hx => add hx.2
  have listed {v : Value} (hv : v.Within F) :
      Mirror ρ F
        (do
          (← itemsOf v).forM fun item => do
            let x ← fieldOf item
            register x.2
            i.update [x]
          keyword.forM fun x => do register x.2; i.update [x])
        (do
          (← itemsOf (v.rename ρ)).forM fun item => do
            let x ← fieldOf item
            register x.2
            (i.rename ρ).update [x]
          (Value.renameEntries ρ keyword).forM fun x => do
            register x.2
            (i.rename ρ).update [x]) := by
    refine (itemsOf_mirror hv).bind fun items hi => .bind (.forM hi fun w hw => ?_) fun _ _ => rest
    exact (fieldOf_mirror hw).bind fun x hx => add hx.2
  unfold merge
  match given with
  | [] => exact rest
  | [v] =>
    have hv := hg v (by simp)
    cases v with
    | mapping j =>
      refine (read_mirror hv).bind fun fields hf => .bind ?_ fun _ _ => rest
      exact .forM hf fun x hx => add hx.2
    | _ => exact listed hv
  | v :: _ :: _ => cases v <;> exact .fail _

section Streams

variable {s : Stream} (hs : s.Within F) {a : ArgList} (ha : Renamable.Within F a)

include hs ha

theorem Stream.invokeSearch_fluent_mirror (call : Call) {method : String}
    (hm : method ∉ buildingMethods) :
    Mirror ρ F (s.invokeSearch call method a)
      ((s.rename ρ).invokeSearch call method (Renamable.rename ρ a)) := by
  unfold Stream.invokeSearch
  split <;> try { simp [buildingMethods] at hm }
  · exact (ArgList.requireNone_mirror ha).bind fun _ _ => givenStream_mirror (distinct_mirror hs)
  · refine ArgList.withOptional_mirror ha _ fun {v o} hv ho => ?_
    cases o with
    | none => exact givenStream_mirror (orderBy_mirror hs (.bool true) hv trivial)
    | some w => exact givenStream_mirror (orderBy_mirror hs w hv (ho w rfl))
  · exact (ArgList.rest_mirror ha).bind fun vs hv => givenStream_mirror (orderByAttributes_mirror hs hv)
  · exact (ArgList.one_mirror ha _).bind fun v hv => givenStream_mirror (orderByListed_mirror hs hv)
  · exact (ArgList.one_mirror ha _).bind fun v hv => givenStream_mirror (groupBy_mirror hs hv)
  · exact (ArgList.one_mirror ha _).bind fun v hv => givenStream_mirror (groupByListed_mirror hs hv)
  · exact (ArgList.one_mirror ha _).bind fun v hv => givenStream_mirror (having_mirror hs hv)
  · exact (ArgList.two_mirror ha _ _).bind fun v hv => givenStream_mirror (addRoot_mirror hs hv.1 hv.2)
  · refine ArgList.withOptional_mirror ha _ fun {v o} hv ho => ?_
    cases o with
    | none => exact givenStream_mirror (join_mirror hs (.bool false) hv trivial)
    | some w => exact givenStream_mirror (join_mirror hs w hv (ho w rfl))
  · exact (ArgList.one_mirror ha _).bind fun v hv => givenStream_mirror (map_mirror hs hv)
  · exact (ArgList.requireNone_mirror ha).bind fun _ _ => givenStream_mirror (count_mirror hs)
  · exact .fail _

/-- Methods that run no configuration call no function. -/
theorem Stream.invoke_fluent_mirror (call : Call) {method : String} (hm : method ∉ buildingMethods) :
    Mirror ρ F (s.invoke call method a)
      ((s.rename ρ).invoke call method (Renamable.rename ρ a)) := by
  unfold Stream.invoke
  rw [s.rename_kind, s.rename_configurer]
  split <;> try { simp [buildingMethods] at hm }
  · exact .fail _
  · refine ArgList.withOptional_mirror ha _ fun {v o} hv ho => ?_
    cases o with
    | none => exact givenStream_mirror (bind_mirror hs .null hv trivial)
    | some w => exact givenStream_mirror (bind_mirror hs w hv (ho w rfl))
  · exact (ArgList.one_mirror ha _).bind fun v hv => givenStream_mirror (peek_mirror hs hv)
  · exact (ArgList.one_mirror ha _).bind fun v hv => givenStream_mirror (filter_mirror hs hv)
  · exact (ArgList.one_mirror ha _).bind fun v _ => givenStream_mirror (limit_mirror hs v)
  · exact (ArgList.one_mirror ha _).bind fun v _ => givenStream_mirror (skip_mirror hs v)
  · exact (ArgList.ownFields_mirror ha).bind fun fields hf =>
      givenStream_mirror (withParams_mirror hs fun x hx => (hf x hx).2)
  · exact (ArgList.ownFields_mirror ha).bind fun fields hf =>
      givenStream_mirror (withOptions_mirror hs fun x hx => (hf x hx).2)
  · exact invokeSearch_fluent_mirror hs ha call hm
  · exact (ArgList.two_mirror ha _ _).bind fun v hv => givenStream_mirror (assign_mirror hs hv.1 hv.2)
  · exact .fail _

variable {call : Call}

omit hs in
/-- Building a stream as a subquery mirrors itself if its two forms do. -/
theorem Stream.invoke_nested_mirror {method : String}
    (hm : method = "as_subquery" ∨ method = "exists")
    (subquery : Mirror ρ F (s.asSubquery call) ((s.rename ρ).asSubquery call))
    (existence : Mirror ρ F (Stream.existence call s) (Stream.existence call (s.rename ρ))) :
    Mirror ρ F (s.invoke call method a)
      ((s.rename ρ).invoke call method (Renamable.rename ρ a)) := by
  unfold Stream.invoke
  rw [s.rename_kind]
  rcases hm with rfl | rfl <;> rcases s.kind with _ | _ | _ | _ | _ <;> try exact .fail _
  · exact (ArgList.requireNone_mirror ha).bind fun _ _ => subquery
  · exact (ArgList.requireNone_mirror ha).bind fun _ _ => existence

theorem Stream.invoke_mirror [F.Contextual]
    (hc : ∀ {f args}, f.Within F → (∀ v ∈ args, v.Within F) →
      Mirror ρ F (call f args) (call (f.rename ρ) (args.map (Value.rename ρ))))
    (method : String) :
    Mirror ρ F (s.invoke call method a)
      ((s.rename ρ).invoke call method (Renamable.rename ρ a)) := by
  by_cases hm : method ∈ buildingMethods
  · simp only [buildingMethods, List.mem_cons, List.not_mem_nil, or_false] at hm
    rcases hm with rfl | rfl | rfl | hm
    · unfold Stream.invoke
      rw [s.rename_configurer]
      exact (ArgList.two_mirror ha _ _).bind fun v hv =>
        configure_mirror hc hv.1 hv.2 hs.configurer
    · unfold Stream.invoke
      rw [s.rename_kind]
      cases s.kind with
      | base => exact .fail _
      | _ => exact (ArgList.requireNone_mirror ha).bind fun _ _ => toContext_mirror hc hs
    · unfold Stream.invoke
      rw [s.rename_kind]
      cases s.kind with
      | base => exact .fail _
      | _ => exact (ArgList.requireNone_mirror ha).bind fun _ _ => toQuery_mirror hc hs
    · exact invoke_nested_mirror ha hm (asSubquery_mirror hc hs) (existence_mirror hc hs)
  · exact invoke_fluent_mirror hs ha call hm

end Streams

/-! ### Constructors and functions -/

/-- An argument that may be left out. -/
theorem getD_rename (o : Option Value) (d : Value) :
    (o.getD d).rename ρ = (o.map (Value.rename ρ)).getD (d.rename ρ) := by
  cases o <;> rfl

theorem getD_within {o : Option Value} (ho : Renamable.Within F o) {d : Value} (hd : d.Within F) :
    (o.getD d).Within F := by
  cases o with
  | none => exact hd
  | some v => exact ho v rfl

namespace QueryId

theorem ofParts_mirror (kind : QueryKind) {session query params options : Value}
    (hs : session.Within F) (hq : query.Within F) (hp : params.Within F) (ho : options.Within F) :
    Mirror ρ F (ofParts kind session query params options)
      (ofParts kind (session.rename ρ) (query.rename ρ) (params.rename ρ) (options.rename ρ)) := by
  refine .guarded (by simp) (.guarded (by simp) ?_)
  refine (fieldsOf_mirror hp).bind fun params hp => (fieldsOf_mirror ho).bind fun options ho => ?_
  refine .bind (.forM hp fun x _ => register_mirror x.2) fun _ _ => ?_
  refine (MappingId.new_mirror fun x hx => (hp x hx).2).bind fun params hp => ?_
  refine (MappingId.new_mirror fun x hx => (ho x hx).2).bind fun options ho => ?_
  exact new_mirror (q := ⟨kind, session, query, params, options, .unset, .unset⟩) ⟨hs, hq, hp, ho⟩

theorem setBound_mirror {q : QueryId} (hq : F.address .queries q.index) (b : Bounding)
    (v : Value) : Mirror ρ F (q.setBound b v) ((q.rename ρ).setBound b (v.rename ρ)) := by
  refine (read_mirror hq).bind fun x hx => (requireBound_mirror b v).bind fun bound _ => ?_
  obtain ⟨kind, session, query, params, options, first, max⟩ := x
  cases b with
  | skip => exact write_mirror (x := ⟨kind, session, query, params, options, bound, max⟩) hx.rebound
  | limit => exact write_mirror (x := ⟨kind, session, query, params, options, first, bound⟩) hx.rebound

end QueryId

section Constructors

variable {a : ArgList} (ha : Renamable.Within F a)

include ha

theorem newStream_mirror (kind : StreamKind) :
    Mirror ρ F (newStream kind a) (newStream kind (Renamable.rename ρ a)) := by
  have unset : (Value.int 0 (-1)).rename ρ = .int 0 (-1) :=
    congrArg (Value.int · (-1)) ρ.number_zero
  refine (ArgList.bind_mirror ha _).bind fun vs hv => ?_
  rcases vs with _ | ⟨_ | session, _ | ⟨_ | queryType, _ | ⟨_ | configurer, _ | ⟨first,
    _ | ⟨max, _ | ⟨params, _ | ⟨options, _ | _⟩⟩⟩⟩⟩⟩⟩
  all_goals try exact .fail _
  have hs := hv (some session) (by simp) session rfl
  have ht := hv (some queryType) (by simp) queryType rfl
  have hc := hv (some configurer) (by simp) configurer rfl
  have hp := getD_within (hv params (by simp)) (d := .null) trivial
  have ho := getD_within (hv options (by simp)) (d := .null) trivial
  have made := Stream.new_mirror (ρ := ρ) kind (first.getD (.int 0 (-1)))
    (max.getD (.int 0 (-1))) hs ht hc hp ho
  simp only [getD_rename, unset] at made
  exact givenStream_mirror made

theorem newQuery_mirror (kind : QueryKind) :
    Mirror ρ F (newQuery kind a) (newQuery kind (Renamable.rename ρ a)) := by
  refine (ArgList.bind_mirror ha _).bind fun vs hv => ?_
  rcases vs with _ | ⟨_ | session, _ | ⟨_ | query, _ | ⟨params, _ | ⟨options, _ | _⟩⟩⟩⟩
  all_goals try exact .fail _
  have hs := hv (some session) (by simp) session rfl
  have hq := hv (some query) (by simp) query rfl
  have hp := getD_within (hv params (by simp)) (d := .null) trivial
  have ho := getD_within (hv options (by simp)) (d := .null) trivial
  have made := QueryId.ofParts_mirror (ρ := ρ) kind hs hq hp ho
  simp only [getD_rename] at made
  exact made.bind fun q hq => .pure (a := Value.query q) hq

theorem newQueryType_mirror (purpose : Purpose) :
    Mirror ρ F (newQueryType purpose a) (newQueryType purpose (Renamable.rename ρ a)) :=
  (ArgList.one_mirror ha _).bind fun _ hv => (QueryType.new_mirror purpose _ hv).bind fun t ht =>
    .pure (a := Value.queryType t) ht

theorem construct_mirror {className : String} (new : className ∈ contextClasses → F.Contextual) :
    Mirror ρ F (construct className a) (construct className (Renamable.rename ρ a)) := by
  unfold construct
  split
  · exact (ArgList.requireNone_mirror ha).bind fun _ _ => RefId.new_mirror.bind fun r hr =>
      .pure (a := Value.ref r) hr
  · refine (ArgList.one_mirror ha _).bind fun v hv => .guarded (by simp) ?_
    exact .fresh fun id => .pure (a := Value.queryBuilder id v) hv
  · exact (ArgList.requireNone_mirror ha).bind fun _ _ => .fresh fun id =>
      .pure (a := Value.criteriaBuilder id) trivial
  · have := new (by simp [contextClasses])
    exact (ArgList.requireNone_mirror ha).bind fun _ _ => newContext_mirror (k := .common) trivial
  · have := new (by simp [contextClasses])
    exact (ArgList.requireNone_mirror ha).bind fun _ _ =>
      newContext_mirror (k := .abstract .empty) .empty
  · have := new (by simp [contextClasses])
    exact (ArgList.requireNone_mirror ha).bind fun _ _ => newSearch_mirror
  · have := new (by simp [contextClasses])
    refine (ArgList.one_mirror ha _).bind fun v hv => .guarded (by simp) ?_
    exact newSubquery_mirror hv
  · have := new (by simp [contextClasses])
    exact (ArgList.one_mirror ha _).bind fun v hv => newDelete_mirror hv
  · have := new (by simp [contextClasses])
    exact (ArgList.one_mirror ha _).bind fun v hv => newUpdate_mirror hv
  · exact newQueryType_mirror ha .search
  · exact newQueryType_mirror ha .delete
  · exact newQueryType_mirror ha .update
  · exact newQuery_mirror ha .base
  · exact newQuery_mirror ha .typed
  · exact newQuery_mirror ha .bulk
  · exact newStream_mirror ha .base
  · exact newStream_mirror ha .common
  · exact newStream_mirror ha _
  · exact newStream_mirror ha _
  · exact newStream_mirror ha _
  · refine (ArgList.two_mirror ha _ _).bind fun (builder, query) hv => ?_
    refine .guarded (by simp) ?_
    refine .guarded (by simp) ?_
    exact .fresh fun id => .pure (a := Value.frame ⟨id, builder, query⟩) hv
  · exact .fail _

theorem extendConfigurer_mirror (what : String) {step : Value → Step}
    (renamed : ∀ v, step (v.rename ρ) = (step v).rename ρ)
    (within : ∀ {v}, v.Within F → (step v).Within F) :
    Mirror ρ F (extendConfigurer what step a)
      (extendConfigurer what step (Renamable.rename ρ a)) := by
  refine (ArgList.two_mirror ha _ _).bind fun (prev, extra) hv => ?_
  refine .guarded (by simp) ?_
  refine .guarded (by simp) ?_
  have := Configurer.extend_mirror (ρ := ρ) hv.1 (within hv.2)
  rwa [← renamed] at this

theorem resolve_mirror : Mirror ρ F (resolve a) (resolve (Renamable.rename ρ a)) :=
  (ArgList.two_mirror ha _ _).bind fun _ hv => resolveAttribute_mirror hv.1 hv.2

end Constructors

theorem setProperty_mirror {v : Value} (hv : v.Within F) (name : String) (x : Value) :
    Mirror ρ F (setProperty v name x) (setProperty (v.rename ρ) name (x.rename ρ)) := by
  cases v with
  | query q =>
    unfold setProperty
    simp only [Value.rename]
    split
    · next h =>
      cases h
      exact QueryId.setBound_mirror hv .skip x
    · next h =>
      cases h
      exact QueryId.setBound_mirror hv .limit x
    · split <;> first | exact .fail _ | simp_all
  | _ => exact .fail _

/-! ### Calls by name -/

section Calls

variable {call : Call}
  (hc : ∀ {f args}, f.Within F → (∀ v ∈ args, v.Within F) →
    Mirror ρ F (call f args) (call (f.rename ρ) (args.map (Value.rename ρ))))
  {v : Value} (hv : v.Within F) {a : ArgList} (ha : Renamable.Within F a)

include hc hv ha

omit hc in
/-- Calls of methods mirror themselves if those that run a configuration do. -/
theorem invokeMethod_mirror_of {method : String} (hm : method ∉ sendingMethods)
    (new : method ∈ creatingMethods → F.Contextual)
    (builds : ∀ s, v = .stream s → method ∈ Stream.buildingMethods →
      Mirror ρ F (s.invoke call method a)
        ((s.rename ρ).invoke call method (Renamable.rename ρ a))) :
    Mirror ρ F (invokeMethod call v method a)
      (invokeMethod call (v.rename ρ) method (Renamable.rename ρ a)) := by
  cases v with
  | ref r => exact RefId.invoke_mirror ha hv method
  | criteriaBuilder id => exact invokeBuilder_mirror ha new
  | context c => exact ContextId.invoke_mirror ha hv method
  | stream s =>
    by_cases hb : method ∈ Stream.buildingMethods
    · exact builds s rfl hb
    · exact Stream.invoke_fluent_mirror hv ha call hb
  | queryType t => exact QueryType.invoke_mirror ha hv new
  | query q =>
    have refused (q : QueryId) (a : ArgList) : q.invoke method a = fail .external := by
      unfold QueryId.invoke
      split <;> first | rfl | simp [sendingMethods] at hm
    simp only [Value.rename, invokeMethod, refused]
    exact .fail _
  | queryBuilder id session =>
    exact invokeQueryBuilder_mirror ha session hv method
  | mapping i =>
    unfold invokeMethod
    simp only [Value.rename]
    split
    · refine (MappingId.merge_mirror hv ha.1 ha.2).bind fun _ _ => ?_
      exact .pure (a := Value.null) trivial
    · exact .fail _
  | _ => exact .fail _

/-- What a property holds is called, or else a method. -/
theorem invoke_mirror_of {name : String} (hm : name ∉ sendingMethods)
    (new : name ∈ creatingMethods → F.Contextual)
    (builds : ∀ s, v = .stream s → name ∈ Stream.buildingMethods →
      Mirror ρ F (s.invoke call name a)
        ((s.rename ρ).invoke call name (Renamable.rename ρ a))) :
    Mirror ρ F (invoke call v name a)
      (invoke call (v.rename ρ) name (Renamable.rename ρ a)) := by
  refine (Value.property?_mirror hv name).bind fun f hf => ?_
  cases f with
  | none => exact invokeMethod_mirror_of hv ha hm new builds
  | some f => exact (ArgList.rest_mirror ha).bind fun vs hvs => hc (hf f rfl) hvs

theorem invoke_mirror [inst : F.Contextual] {name : String} (hm : name ∉ sendingMethods) :
    Mirror ρ F (invoke call v name a)
      (invoke call (v.rename ρ) name (Renamable.rename ρ a)) :=
  invoke_mirror_of hc hv ha hm (fun _ => inst) fun s hs _ =>
    Stream.invoke_mirror (hs ▸ hv : (Value.stream s).Within F) ha hc name

end Calls

end FluentQuery
