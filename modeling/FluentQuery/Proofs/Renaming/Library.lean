import FluentQuery.Proofs.Renaming.Mirror
import FluentQuery.Proofs.Renaming.Reading

/-! The library mirrors itself: reading properties, building expressions, and changing query
contexts. -/

namespace FluentQuery

open Sql

variable {ρ : Renaming} {F : Footprint} {framed : Bool}

/-! ### Texts and truths -/

/-- A text, or none. -/
theorem counterpart_text {x y : Option String} (h : y = x) : Counterpart ρ F x y :=
  ⟨by rw [h]; cases x <;> rfl, fun _ _ => trivial⟩

section Values

variable {v : Value} (hv : v.Within F)

include hv

theorem shownNow_mirror : MirrorAt framed ρ F (shownNow v) (shownNow (v.rename ρ)) :=
  .get fun hm => orExternal_mirror (counterpart_text (Value.shownTo_alike hm.toStoresAlike 1000 hv []))

/-- A failure that shows a value. -/
theorem refused_mirror {α : Type} [Renamable α] (e : String → Error) :
    Mirror (α := α) ρ F (do fail (e (← shownNow v))) (do fail (e (← shownNow (v.rename ρ)))) :=
  (shownNow_mirror hv).bind fun _ _ => .fail _

theorem plainNow_mirror : Mirror ρ F v.plainNow (v.rename ρ).plainNow :=
  .reads fun hm => counterpart_text
    (Value.plainWith_alike (Value.shownTo_alike hm.toStoresAlike 1000 hv []))

theorem classNow_mirror : MirrorAt framed ρ F (classNow v) (classNow (v.rename ρ)) :=
  .reads fun hm => ⟨Value.className_alike hm.toStoresAlike hv, trivial⟩

theorem truth_mirror : Mirror ρ F v.truth (v.rename ρ).truth :=
  .get fun hm => orExternal_mirror
    ⟨by rw [Value.truth?_alike hm.toStoresAlike hv]; cases v.truth? _ <;> rfl, fun _ _ => trivial⟩

theorem asContext_mirror : Mirror ρ F v.asContext (v.rename ρ).asContext := by
  cases v with
  | context c => exact .pure hv
  | _ => exact .fail _

end Values

theorem requireBuilder_mirror (v : Value) :
    Mirror ρ F v.requireBuilder (v.rename ρ).requireBuilder := by
  cases v with
  | criteriaBuilder => exact .pure trivial
  | _ => exact .fail _

/-! ### Properties -/

namespace Frame

variable {f : Frame} (hf : f.Within F)

include hf

theorem subquery_mirror : Mirror ρ F f.subquery (f.rename ρ).subquery := by
  obtain ⟨id, builder, query⟩ := f
  cases query with
  | context c =>
    refine (ContextId.read_mirror hf.2).bind fun x hx => .ite ?_ (.pure hf.2) (.fail _)
    exact Bool.eq_iff_iff.mp x.isSubquery_rename.symm
  | _ => exact .fail _

theorem isSubquery_mirror : Mirror ρ F f.isSubquery (f.rename ρ).isSubquery := by
  obtain ⟨id, builder, query⟩ := f
  cases query with
  | context c =>
    refine (ContextId.read_mirror hf.2).bind fun x hx => .pure_of trivial ?_
    exact x.isSubquery_rename
  | _ => exact .pure (a := false) trivial

end Frame

theorem currentSubquery_mirror [F.Contextual] : Mirror ρ F currentSubquery currentSubquery :=
  currentFrame_mirror.bind fun _ hf => Frame.subquery_mirror hf

/-- A property that is there. -/
theorem present_mirror {x y : Run Value} (h : Mirror ρ F x y) :
    Mirror ρ F (do return some (← x)) (do return some (← y)) :=
  h.bind fun v hv => .pure (a := some v) fun _ hw => by cases hw; exact hv

theorem some_mirror {v w : Value} (hv : v.Within F) (eq : w = v.rename ρ) :
    Mirror ρ F (pure (some v)) (pure (some w)) := by
  subst eq
  exact .pure (a := some v) fun _ hw => by cases hw; exact hv

theorem none_mirror : Mirror (α := Option Value) ρ F (pure none) (pure none) :=
  .pure (a := none) fun _ hw => by cases hw

namespace Context

theorem statementProperty_mirror {c : Context} (hc : c.Within F) :
    Mirror ρ F
      (do
        if c.isComplete then
          let s ← liftExcept (c.statement (← get))
          return some (Value.statement (← fresh) s)
        else return none)
      (do
        if (c.rename ρ).isComplete then
          let s ← liftExcept ((c.rename ρ).statement (← get))
          return some (Value.statement (← fresh) s)
        else return none) := by
  refine .ite (by rw [isComplete_rename]) (.get fun hm => ?_) none_mirror
  refine (liftExcept_mirror ⟨statement_alike hm.toStoresAlike hc, fun _ _ => trivial⟩).bind
    fun s _ => .fresh fun id => ?_
  exact some_mirror (v := .statement id s) trivial rfl

theorem property?_mirror {c : Context} (hc : c.Within F) (name : String) :
    Mirror ρ F (c.property? name) ((c.rename ρ).property? name) := by
  have statement := statementProperty_mirror (ρ := ρ) hc
  obtain ⟨restriction, kind⟩ := c
  obtain ⟨hr, hk⟩ := hc
  have body {b : SelectBody} (h : kind.body? = some b) := hk.body h
  unfold property?
  simp only [rename, ContextKind.body?_rename] at statement ⊢
  split
  · exact some_mirror hr rfl
  · next b found =>
    rw [found]
    exact present_mirror (newTuple_mirror (body found).roots)
  · next b found =>
    rw [found]
    exact present_mirror (newTuple_mirror (body found).groupBy)
  · next b found =>
    rw [found]
    exact some_mirror (body found).having rfl
  · next b found =>
    rw [found]
    exact some_mirror (body found).distinct rfl
  · next b found =>
    rw [found]
    exact some_mirror (body found).selection rfl
  · exact statement
  · clear body statement
    split
    · exact present_mirror (newTuple_mirror hk.2)
    · exact some_mirror hk.2.1 rfl
    · exact present_mirror (newTuple_mirror hk.2.2)
    · exact some_mirror (v := _) hk rfl
    · exact some_mirror hk.1 rfl
    · exact present_mirror (newMapping_mirror hk.2)
    · have nothing : Mirror (α := Option Value) ρ F (Pure.pure none) (Pure.pure none) := none_mirror
      cases kind <;> grind [ContextKind.rename, ContextKind.body?]

end Context

theorem Stream.property?_mirror {s : Stream} (hs : s.Within F) (name : String) :
    Mirror ρ F (s.property? name) ((s.rename ρ).property? name) := by
  unfold property?
  split
  · exact some_mirror hs.session s.rename_session
  · exact some_mirror hs.queryType s.rename_queryType
  · exact some_mirror hs.configurer s.rename_configurer
  · exact some_mirror (v := s.firstResult.toValue) s.firstResult.toValue_within (by simp)
  · exact some_mirror (v := s.maxResults.toValue) s.maxResults.toValue_within (by simp)
  · rw [rename_params]
    exact present_mirror (newMapping_mirror hs.params)
  · rw [rename_options]
    exact present_mirror (newMapping_mirror hs.options)
  · exact none_mirror

namespace Executable

variable {q : Executable} (hq : q.Within F)

include hq

theorem statementValue_mirror : Mirror ρ F q.statementValue (q.rename ρ).statementValue := by
  refine .freshNext fun n after => .bind fresh_mirror fun _ _ => .get fun hm => ?_
  refine (liftExcept_mirror ⟨statement_alike hm.toStoresAlike after rfl hq, fun _ _ => trivial⟩).bind
    fun s _ => .fresh fun id => ?_
  exact .pure (a := Value.statement id s) trivial

theorem property?_mirror (name : String) :
    Mirror ρ F (q.property? name) ((q.rename ρ).property? name) := by
  unfold property?
  split
  · exact some_mirror hq.session rfl
  · exact some_mirror hq.query rfl
  · exact some_mirror (v := .mapping q.params) hq.params rfl
  · exact some_mirror (v := .mapping q.options) hq.options rfl
  · exact some_mirror q.firstResult.toValue_within (Bound.toValue_rename _).symm
  · exact some_mirror q.maxResults.toValue_within (Bound.toValue_rename _).symm
  · have statement := present_mirror (statementValue_mirror (ρ := ρ) hq)
    obtain ⟨kind⟩ := q
    cases kind with
    | base => exact none_mirror
    | typed | bulk => exact statement
  · exact none_mirror

end Executable

namespace Value

theorem rowItem?_rename (items : List Value) (name : String) :
    rowItem? (items.map (rename ρ)) name = (rowItem? items name).map (rename ρ) := by
  unfold rowItem?
  rw [List.zipIdx_map, List.find?_map, Option.map_map, Option.map_map]
  rfl

theorem rowItem?_within {items : List Value} (h : ∀ v ∈ items, v.Within F) (name : String) :
    ∀ v, rowItem? items name = some v → v.Within F := by
  intro v hv
  obtain ⟨⟨w, i⟩, found, rfl⟩ := Option.map_eq_some_iff.mp hv
  exact h w (List.fst_mem_of_mem_zipIdx (List.mem_of_find?_eq_some found))

theorem property?_mirror {v : Value} (hv : v.Within F) (name : String) :
    Mirror ρ F (v.property? name) ((v.rename ρ).property? name) := by
  have found {x y : Option Value} (h : Counterpart ρ F x y) : Mirror ρ F (pure x) (pure y) :=
    .pure_of h.within h.eq
  have only {b : Bool} {v w : Value} (hv : v.Within F) (eq : w = v.rename ρ) :
      Mirror ρ F (pure (if b then some v else none)) (pure (if b then some w else none)) := by
    cases b
    · exact none_mirror
    · exact some_mirror hv eq
  cases v with
  | mapped m =>
    unfold property?
    simp only [rename]
    split
    · exact some_mirror (v := .text 0 m.entity.table.name) trivial
        (congrArg (text · m.entity.table.name) ρ.number_zero.symm)
    · rw [m.name_rename]
      exact some_mirror (v := .text 0 m.name) trivial (congrArg (text · m.name) ρ.number_zero.symm)
    · refine found ⟨?_, fun v hv => ?_⟩
      · rw [m.attribute?_rename]
        cases m.attribute? name <;> rfl
      · obtain ⟨a, _, rfl⟩ := Option.map_eq_some_iff.mp hv
        trivial
  | row id items =>
    rw [rename, renameAll_eq]
    exact found ⟨rowItem?_rename items name, rowItem?_within (allWithin_iff.mp hv) name⟩
  | term id t =>
    cases t with
    | function f type ts =>
      exact only (v := .text 0 f) trivial (congrArg (text · f) ρ.number_zero.symm)
    | _ => exact none_mirror
  | context c => exact (ContextId.read_mirror hv).bind fun x hx => Context.property?_mirror hx name
  | stream s => exact Stream.property?_mirror hv name
  | query q => exact (QueryId.read_mirror hv).bind fun x hx => Executable.property?_mirror hx name
  | queryType t => exact only (QueryType.Within.entity hv) t.rename_entity
  | queryBuilder id session => exact only hv rfl
  | frame f =>
    unfold property?
    simp only [rename]
    split
    · exact some_mirror (Frame.Within.builder hv) f.rename_builder
    · exact some_mirror (Frame.Within.query hv) f.rename_query
    · refine (Frame.subquery_mirror hv).bind fun c hc => ?_
      exact some_mirror (v := .context c) hc rfl
    · refine (Frame.isSubquery_mirror hv).bind fun b _ => ?_
      exact some_mirror (v := .bool b) trivial rfl
    · exact none_mirror
  | _ => exact none_mirror

end Value

section Resolving

variable {selection key : Value} (hs : selection.Within F) (hk : key.Within F)

include hs hk

theorem resolveAttribute_mirror :
    Mirror ρ F (resolveAttribute selection key)
      (resolveAttribute (selection.rename ρ) (key.rename ρ)) := by
  unfold resolveAttribute
  refine .guarded (by rw [Value.isNull_rename]) ?_
  rw [Value.attributeKey?_rename]
  split
  · exact refused_mirror hk .unsupportedAttribute
  · next name _ =>
    have missing : Mirror (α := Value) ρ F _ _ := refused_mirror hs (.noAttribute · name)
    refine (Value.property?_mirror hs _).bind fun v hv => ?_
    cases v with
    | none => exact missing
    | some v =>
      cases v with
      | null => exact missing
      | _ => exact .pure (hv _ rfl)

theorem resolveRelationship_mirror :
    Mirror ρ F (resolveRelationship selection key)
      (resolveRelationship (selection.rename ρ) (key.rename ρ)) := by
  unfold resolveRelationship
  have other : Mirror (α := Mapped × Relationship) ρ F _ _ := refused_mirror hk .notRelationship
  refine (resolveAttribute_mirror hs hk).bind fun v _ => ?_
  cases v with
  | member a =>
    obtain ⟨m, c | r⟩ := a
    · exact other
    · exact .pure ⟨trivial, trivial⟩
  | _ => exact other

end Resolving

end FluentQuery
