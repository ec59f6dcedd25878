import FluentQuery.Proofs.Renaming.Steps

/-! Applying configurations and building queries mirror themselves, if calling functions of the
program does. -/

namespace FluentQuery

open Sql

variable {ρ : Renaming} {F : Footprint} {framed : Bool}

/-! ### Query contexts and frames -/

/-- On machines that are alike, a query context of the footprint corresponds to its counterpart. -/
theorem handles_alike : Handles Context.orphaned
    (fun c c' => F.address .contexts c.index ∧ c' = c.rename ρ) (Alike true ρ F) ρ F where
  alike hm := hm
  lift h _ _ := h
  seen := by
    rintro c _ ⟨hc, rfl⟩ m m' hm
    obtain ⟨eq, within⟩ := hm.context? hc
    rw [eq]
    refine ⟨?_, fun x hx => ?_⟩
    · cases m.context? c with
      | none => rfl
      | some x => exact congrArg some x.orphaned_rename
    · obtain ⟨y, hy, rfl⟩ := Option.map_eq_some_iff.mp hx
      exact (within y hy).orphaned
  update := by
    rintro c _ ⟨hc, rfl⟩ f g h - -
    exact ContextId.update_mirror hc h
  updateGet := by
    rintro c _ ⟨hc, rfl⟩ f g h - -
    exact ContextId.updateGet_mirror hc h

/-- A query of the footprint corresponds to its counterpart. -/
theorem queries_rename {query : Value} (hq : query.Within F) :
    Queries (fun c c' => F.address .contexts c.index ∧ c' = c.rename ρ) query (query.rename ρ) := by
  cases query with
  | context c => exact .context ⟨hq, rfl⟩
  | _ => exact .other nofun nofun (Value.isNull_rename _)

namespace ContextId

variable {c : ContextId} (hc : F.address .contexts c.index)

include hc

theorem addRoot_mirror {entity : Value} (he : entity.Within F) :
    Mirror ρ F (c.addRoot entity) ((c.rename ρ).addRoot (entity.rename ρ)) :=
  addRoot_handled handles_alike ⟨hc, rfl⟩ he

theorem join_mirror {owner key : Value} (outer : Value) (hw : owner.Within F) (hk : key.Within F)
    (ho : outer.Within F) :
    Mirror ρ F (c.join owner key outer)
      ((c.rename ρ).join (owner.rename ρ) (key.rename ρ) (outer.rename ρ)) :=
  join_handled handles_alike ⟨hc, rfl⟩ outer hw hk ho

theorem assign_mirror {key v : Value} (hk : key.Within F) (hv : v.Within F) :
    Mirror ρ F (c.assign key v) ((c.rename ρ).assign (key.rename ρ) (v.rename ρ)) :=
  assign_handled handles_alike ⟨hc, rfl⟩ hk hv

end ContextId

theorem withFrame_mirror {α : Type} [Renamable α] {builder query : Value}
    (hb : builder.Within F) (hq : query.Within F) {body body' : Frame → Run α}
    (h : ∀ f, f.Within F → Mirror ρ F (body f) (body' (f.rename ρ))) :
    MirrorAt framed ρ F (withFrame builder query body)
      (withFrame (builder.rename ρ) (query.rename ρ) body') := by
  refine (classNow_mirror hq).bind fun name _ => ?_
  cases query with
  | context c =>
    refine .guarded (by rw [builder.isNull_rename]) (.fresh fun id => .get fun {m m'} hm => ?_)
    have stack := hm.stack.push (f := ⟨id, builder, .context c⟩) ⟨hb, hq⟩
    refine ensuring_mirror (onStack_mirror stack ?_) (logLine_mirror (.pure trivial))
    have depth := hm.stack.depth
    simp only [Value.rename, List.length_cons, depth]
    exact (logLine_mirror (.pure trivial)).bind fun _ _ => h _ ⟨hb, hq⟩
  | _ => exact .fail _

/-! ### Configurations -/

variable {call : Call}
  (hc : ∀ {f args}, f.Within F → (∀ v ∈ args, v.Within F) →
    Mirror ρ F (call f args) (call (f.rename ρ) (args.map (Value.rename ρ))))

include hc

section Steps

variable {builder query : Value} (hb : builder.Within F) (hq : query.Within F)

include hb hq

theorem Step.apply_mirror {selection : Value} (hs : selection.Within F) {step : Step}
    (hp : step.Within F) :
    Mirror ρ F (step.apply call builder query selection)
      ((step.rename ρ).apply call (builder.rename ρ) (query.rename ρ) (selection.rename ρ)) := by
  have three : ∀ w ∈ [builder, query, selection], w.Within F := by simp [hb, hq, hs]
  cases step with
  | modify f => exact (hc hp three).discard.bind fun _ _ => .pure hs
  | transform f => exact hc hp three
  | _ => exact Step.apply_handled handles_alike hc builder (queries_rename hq) hs rfl hp

theorem Step.applyAll_mirror {selection : Value} (hs : selection.Within F) {steps : List Step}
    (hp : ∀ step ∈ steps, step.Within F) :
    Mirror ρ F (Step.applyAll call builder query selection steps)
      (Step.applyAll call (builder.rename ρ) (query.rename ρ) (selection.rename ρ)
        (steps.map (Step.rename ρ))) := by
  induction steps generalizing selection with
  | nil => exact .pure hs
  | cons step steps ih =>
    obtain ⟨hp, hps⟩ := List.forall_mem_cons.mp hp
    exact (step.apply_mirror hc hb hq hs hp).bind fun v hv => ih hv hps

theorem Origin.select_mirror [F.Contextual] {o : Origin} (ho : o.Within F) :
    Mirror ρ F (o.select call builder query)
      ((o.rename ρ).select call (builder.rename ρ) (query.rename ρ)) := by
  cases o with
  | root entity => exact (asContext_mirror hq).bind fun c hq => ContextId.addRoot_mirror hq ho
  | correlated outer =>
    refine currentSubquery_mirror.bind fun c hc => ?_
    exact (ContextId.update_mirror hc (Context.correlate_alike ho)).bind fun _ _ => .pure ho
  | function f => exact hc ho (by simp [hb, hq])

theorem Configurer.run_mirror [F.Contextual] {c : Configurer} (h : c.Within F) :
    Mirror ρ F (c.run call builder query)
      ((c.rename ρ).run call (builder.rename ρ) (query.rename ρ)) := by
  unfold Configurer.run
  rw [c.rename_origin, c.rename_steps]
  exact (c.origin.select_mirror hc hb hq h.origin).bind fun v hv =>
    Step.applyAll_mirror hc hb hq hv h.steps

theorem configure_mirror [F.Contextual] {configurer : Value} (h : configurer.Within F) :
    Mirror ρ F (configure call configurer builder query)
      (configure call (configurer.rename ρ) (builder.rename ρ) (query.rename ρ)) := by
  cases configurer with
  | configurer c => exact Configurer.run_mirror hc hb hq h
  | _ => exact hc h (by simp [hb, hq])

end Steps

/-! ### Builds -/

namespace ContextId

variable {c : ContextId} (hq : F.address .contexts c.index)

include hq

omit hc in
theorem nested_mirror {f : Select → Term} (hf : ∀ s, f (s.rename ρ) = (f s).rename ρ) :
    Mirror ρ F (do newTerm (f (← liftExcept ((← c.read).nested (← get)))))
      (do newTerm (f (← liftExcept ((← (c.rename ρ).read).nested (← get))))) :=
  nested_handled handles_alike ⟨hq, rfl⟩ hf

omit hc in
theorem scalar_mirror : Mirror ρ F c.scalar (c.rename ρ).scalar :=
  nested_mirror (f := .scalar) hq fun _ => rfl

omit hc in
theorem existence_mirror : Mirror ρ F c.existence (c.rename ρ).existence :=
  nested_mirror (f := .nonempty) hq fun _ => rfl

end ContextId

namespace Stream

variable {s : Stream} (hs : s.Within F)

include hs

/-- A build needs no counterparts among the frames it starts under. -/
theorem toContext_mirror [F.Contextual] :
    MirrorAt framed ρ F (s.toContext call) ((s.rename ρ).toContext call) := by
  have type := hs.queryType
  unfold toContext
  rw [s.rename_queryType, s.rename_configurer]
  cases h : s.queryType with
  | queryType t =>
    rw [h] at type
    refine .fresh fun id => (QueryType.createContext_mirror type).bind fun c hq => ?_
    have hb : Value.Within F (.criteriaBuilder id) := trivial
    have hq : Value.Within F (.context c) := hq
    refine (withFrame_mirror hb hq fun f _ => ?_).bind fun built hv => ?_
    · exact (configure_mirror hc hb hq hs.configurer).bind fun v hv => QueryType.select_mirror hq hv
    · refine (logLine_mirror ?_).bind fun _ _ => .pure hv
      have self : Value.Within F (.stream s) := hs
      exact (shownNow_mirror hv).bind fun t _ => (shownNow_mirror self).bind fun u _ =>
        .pure trivial
  | _ => exact .fail _

omit hc in
theorem logCompiled_mirror {q : QueryId} (hq : F.address .queries q.index) :
    MirrorAt framed ρ F (s.logCompiled q) ((s.rename ρ).logCompiled (q.rename ρ)) := by
  refine .get fun {m m'} hm => .ite (by rw [hm.settings]) ?_ (.pure trivial)
  refine (QueryId.read_mirror hq).bind fun x hx => ?_
  have statement := x.statement_alike hm.toStoresAlike (hm.next 1) (hm.next 0) hx
  refine (liftExcept_mirror ⟨statement, fun _ _ => trivial⟩).bind fun t _ => logLine_mirror ?_
  have self : Value.Within F (.stream s) := hs
  have rendered : Counterpart ρ F t.render.toOption (t.rename ρ).render.toOption :=
    ⟨by rw [t.render_rename]; cases t.render <;> rfl, fun _ _ => trivial⟩
  exact (shownNow_mirror self).bind fun text _ => (orExternal_mirror rendered).bind fun r _ =>
    .pure trivial

theorem toQuery_mirror [F.Contextual] :
    Mirror ρ F (s.toQuery call) ((s.rename ρ).toQuery call) := by
  have type := hs.queryType
  unfold toQuery
  rw [s.rename_queryType, s.rename_session, s.rename_params, s.rename_options,
    s.rename_firstResult, s.rename_maxResults]
  cases h : s.queryType with
  | queryType t =>
    rw [h] at type
    refine (toContext_mirror hc hs).bind fun v hv => ?_
    refine (QueryType.createQuery_mirror hs.session hv).bind fun q hq => ?_
    refine (QueryId.read_mirror hq).bind fun x hx => ?_
    refine (MappingId.update_mirror hx.params hs.params).bind fun _ _ => ?_
    refine (MappingId.update_mirror hx.options hs.options).bind fun _ _ => ?_
    obtain ⟨kind, session, query, params, options, first, max⟩ := x
    refine .bind (QueryId.write_mirror (x := ⟨kind, session, query, params, options, _, _⟩)
      ⟨hx.session, hx.query, hx.params, hx.options⟩) fun _ _ => ?_
    exact (logCompiled_mirror hs hq).bind fun _ _ => .pure (a := Value.query q) hq
  | _ => exact .fail _

theorem toSubquery_mirror [F.Contextual] :
    Mirror ρ F (s.toSubquery call) ((s.rename ρ).toSubquery call) := by
  unfold toSubquery
  rw [s.rename_configurer]
  refine currentFrame_mirror.bind fun f hf => ?_
  have blank : ContextKind.Within F (.subquery .empty f.query [] []) :=
    ⟨.empty, hf.query, fun _ h => by cases h⟩
  have renamed : Context.subquery (f.rename ρ).query = (Context.subquery f.query).rename ρ := by
    rw [f.rename_query]
    rfl
  simp only [Renamable.rename]
  rw [renamed, f.rename_builder]
  refine (ContextId.new_mirror (Context.ofKind_within blank)).bind fun c hq => .bind ?_ fun _ _ => .pure hq
  have hq' : Value.Within F (.context c) := hq
  refine withFrame_mirror hf.builder hq' fun _ _ => ?_
  refine (configure_mirror hc hf.builder hq' hs.configurer).bind fun v hv => ?_
  exact ContextId.update_mirror hq (Context.select_alike hv)

theorem asSubquery_mirror [F.Contextual] :
    Mirror ρ F (s.asSubquery call) ((s.rename ρ).asSubquery call) :=
  (toSubquery_mirror hc hs).bind fun _ hq => ContextId.scalar_mirror hq

theorem existence_mirror [F.Contextual] :
    Mirror ρ F (s.existence call) ((s.rename ρ).existence call) :=
  (toSubquery_mirror hc hs).bind fun _ hq => ContextId.existence_mirror hq

end Stream

end FluentQuery
