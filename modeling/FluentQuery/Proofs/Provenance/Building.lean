import FluentQuery.Proofs.Provenance.Streams

/-! Applying configurations and building queries, if calling functions of the program keeps to what
is known. -/

namespace FluentQuery

open Sql

variable {w w' : Moment}

theorem requireOutermost_sound {query : Value} (hq : query.Known w) (a : Arranging) :
    Sound w (requireOutermost query a) := by
  unfold requireOutermost
  split
  · exact (ContextId.read_sound _).bind fun _ le _ _ => .ite (.pure (le.address hq)) (.fail _)
  · exact .fail _

theorem conjoin_sound (builder : Value) (c : ContextId) {condition : Value}
    (hv : condition.Known w) : Sound w (conjoin builder c condition) := by
  refine c.read_sound.bind fun w₁ le₁ x hx => .ite (.pure (hv.mono le₁)) ?_
  refine (Value.requireBuilder_sound builder).bind fun w₂ le₂ _ _ => ?_
  refine Expression.connect_sound .and (List.forall_mem_cons.mpr ⟨hx.restriction.mono le₂, ?_⟩)
  exact List.forall_mem_singleton.mpr (hv.mono (le₁.trans le₂))

theorem countSelection_sound (builder : Value) (c : ContextId) {selection : Value}
    (hs : selection.Known w) : Sound w (countSelection builder c selection) := by
  have rows {w' : Moment} :
      Sound w' (do builder.requireBuilder; Expression.call "count" []) :=
    (Value.requireBuilder_sound builder).bind fun _ _ _ _ => Expression.call_sound "count" known_nil
  have single {w' : Moment} {distinct v : Value} (hv : v.Known w') : Sound w' (do
      builder.requireBuilder
      if ← distinct.truth then Expression.countDistinct v
      else if v.isNull then Expression.call "count" []
      else Expression.call "count" [v]) := by
    refine (Value.requireBuilder_sound builder).bind fun w₁ le₁ _ _ => ?_
    refine (truth_sound distinct).bind fun w₂ le₂ _ _ => ?_
    have hv := hv.mono (le₁.trans le₂)
    refine .ite (Expression.countDistinct_sound hv) (.ite ?_ ?_)
    · exact Expression.call_sound "count" known_nil
    · exact Expression.call_sound "count" (List.forall_mem_singleton.mpr hv)
  have listed {w' : Moment} {distinct : Value} : Sound w' (do
      if ← distinct.truth then fail .countDistinctRows
      builder.requireBuilder
      Expression.call "count" []) :=
    (truth_sound distinct).bind fun _ _ _ _ => .guarded rows
  refine c.read_sound.bind fun w₁ le x _ => ?_
  cases x.kind.body? with
  | none => exact .fail _
  | some b =>
    refine (c.update_sound fun _ _ _ _ hx h => ?_).bind fun w₂ le₂ _ _ => ?_
    · exact Context.distinct_known hx (v := .bool false) trivial h
    · cases selection with
      | tuple | list => exact listed
      | mapped => exact rows
      | _ => exact single (hs.mono (le.trans le₂))

section Calls

variable {call : Call}
  (hc : ∀ {w f args}, f.Known w → (∀ v ∈ args, v.Known w) → Sound w (call f args))

include hc

/-- A call with the selection. -/
theorem call_selection_sound {f selection : Value} (hf : f.Known w) (hs : selection.Known w) :
    Sound w (call f [selection]) :=
  hc hf (List.forall_mem_singleton.mpr hs)

theorem Projection.read_sound {p : Projection} (hp : p.Known w) {selection : Value}
    (hs : selection.Known w) : Sound w (p.read call selection) := by
  cases p with
  | whole => exact .pure hs
  | named key => exact resolveAttribute_sound hs key
  | function f => exact call_selection_sound hc hp hs
  | held r => exact r.read_sound

theorem Ordering.clauses_sound (builder : Value) {selection : Value} (hs : selection.Known w)
    {o : Ordering} (ho : o.Known w) : Sound w (o.clauses call builder selection) := by
  cases o with
  | listed f => exact (call_selection_sound hc ho hs).bind fun _ _ v hv => itemsOf_sound hv
  | keys keys =>
    replace ho := Projection.keysKnown_iff.mp ho
    unfold clauses
    induction keys generalizing w with
    | nil => exact .pure known_nil
    | cons key keys ih =>
      obtain ⟨⟨hp, ha⟩, ho⟩ := List.forall_mem_cons.mp ho
      refine (Value.requireBuilder_sound builder).bind fun w₁ le₁ _ _ => ?_
      refine (Projection.read_sound hc (hp.mono le₁) (hs.mono le₁)).bind fun w₂ le₂ v hv => ?_
      refine (truth_sound _).bind fun w₃ le₃ _ _ => ?_
      refine (Expression.sorted_sound _ (hv.mono le₃)).bind fun w₄ le₄ u hu => ?_
      have le := (le₁.trans le₂).trans (le₃.trans le₄)
      refine (ih (hs.mono le) fun x hx => ?_).bind fun w₅ le₅ us hus => .pure ?_
      · exact ⟨(ho x hx).1.mono le, (ho x hx).2.mono le⟩
      · exact List.forall_mem_cons.mpr ⟨Value.Known.mono le₅ hu, hus⟩

theorem Grouping.clauses_sound {selection : Value} (hs : selection.Known w) {g : Grouping}
    (hg : g.Known w) : Sound w (g.clauses call selection) := by
  cases g with
  | key p =>
    exact (p.read_sound hc hg hs).bind fun _ _ v hv => .pure (List.forall_mem_singleton.mpr hv)
  | listed f => exact (call_selection_sound hc hg hs).bind fun _ _ v hv => itemsOf_sound hv

theorem assignedValue_sound {selection v : Value} (hs : selection.Known w) (hv : v.Known w) :
    Sound w (assignedValue call selection v) :=
  .ite (call_selection_sound hc hv hs) (.pure hv)

section Steps

variable {builder query : Value} (hb : builder.Known w) (hq : query.Known w)

include hb hq

theorem Step.apply_sound {selection : Value} (hs : selection.Known w) {step : Step}
    (hp : step.Known w) : Sound w (step.apply call builder query selection) := by
  have same {w' : Moment} (le : w.Le w') : Sound w' (pure selection) := .pure (hs.mono le)
  have three : ∀ v ∈ [builder, query, selection], v.Known w := by simp [hb, hq, hs]
  cases step with
  | filter queryType p =>
    refine (p.read_sound hc hp.2 hs).bind fun w₁ le₁ v hv => ?_
    refine (Value.asContext_sound (hq.mono le₁)).bind fun w₂ le₂ c _ => ?_
    refine (conjoin_sound builder c (Value.Known.mono le₂ hv)).bind fun w₃ le₃ r hr => ?_
    have le := (le₁.trans le₂).trans le₃
    cases queryType with
    | queryType t =>
      exact (QueryType.restrict_sound (hq.mono le) hr).bind fun _ le₄ _ _ => same (le.trans le₄)
    | _ => exact .fail _
  | peek f => exact (call_selection_sound hc hp hs).discard.bind fun _ le _ _ => same le
  | bind r p =>
    refine (p.read_sound hc hp.2 hs).bind fun w₁ le₁ v hv => ?_
    exact (r.bind_sound hv).bind fun _ le₂ _ _ => same (le₁.trans le₂)
  | distinct =>
    refine (Value.asContext_sound hq).bind fun w₁ le₁ c _ => ?_
    refine (c.update_sound fun _ _ _ _ hx h => ?_).bind fun _ le₂ _ _ => same (le₁.trans le₂)
    exact Context.distinct_known hx (v := .bool true) trivial h
  | sort o =>
    refine (requireOutermost_sound hq .sort).bind fun w₁ le₁ c _ => ?_
    refine (o.clauses_sound hc builder (hs.mono le₁) (hp.mono le₁)).bind fun w₂ le₂ items hi => ?_
    refine (c.update_sound fun _ le _ _ hx h => ?_).bind fun _ le₃ _ _ =>
      same ((le₁.trans le₂).trans le₃)
    exact Context.orderBy_known hx (Knowable.mono le hi) h
  | group g =>
    refine (requireOutermost_sound hq .group).bind fun w₁ le₁ c _ => ?_
    refine (g.clauses_sound hc (hs.mono le₁) (hp.mono le₁)).bind fun w₂ le₂ items hi => ?_
    refine (c.update_sound fun _ le _ _ hx h => ?_).bind fun _ le₃ _ _ =>
      same ((le₁.trans le₂).trans le₃)
    exact Context.groupBy_known hx (Knowable.mono le hi) h
  | having p =>
    refine (Value.asContext_sound hq).bind fun w₁ le₁ c _ => ?_
    refine c.read_sound.bind fun w₂ le₂ _ _ => .guarded ?_
    have le := le₁.trans le₂
    refine (p.read_sound hc (hp.mono le) (hs.mono le)).bind fun w₃ le₃ v hv => ?_
    refine (c.update_sound fun _ le _ _ hx h => ?_).bind fun _ le₄ _ _ =>
      same ((le.trans le₃).trans le₄)
    exact Context.having_known hx (Value.Known.mono le hv) h
  | addRoot r entity =>
    refine (Value.asContext_sound hq).bind fun w₁ le₁ c _ => ?_
    refine (c.addRoot_sound (hp.2.mono le₁)).bind fun w₂ le₂ v hv => ?_
    exact (r.bind_sound hv).bind fun _ le₃ _ _ => same ((le₁.trans le₂).trans le₃)
  | join key outer =>
    exact (Value.asContext_sound hq).bind fun _ le c _ =>
      c.join_sound (hs.mono le) key (hp.2.mono le)
  | map p => exact p.read_sound hc hp hs
  | count =>
    exact (Value.asContext_sound hq).bind fun _ le c _ => countSelection_sound builder c (hs.mono le)
  | assign key v =>
    refine (Value.asContext_sound hq).bind fun w₁ le₁ c _ => ?_
    refine c.read_sound.bind fun w₂ le₂ _ _ => .guarded ?_
    have le := le₁.trans le₂
    refine (assignedValue_sound hc (hs.mono le) (hp.2.mono le)).bind fun w₃ le₃ u hu => ?_
    exact (c.assign_sound key hu).bind fun _ le₄ _ _ => same ((le.trans le₃).trans le₄)
  | bounded b =>
    cases query with
    | context c => exact c.read_sound.bind fun _ le _ _ => .guarded (same le)
    | _ => exact same (.refl w)
  | modify f => exact (hc hp three).discard.bind fun _ le _ _ => same le
  | transform f => exact hc hp three

theorem Step.applyAll_sound {selection : Value} (hs : selection.Known w) {steps : List Step}
    (hp : ∀ step ∈ steps, step.Known w) :
    Sound w (Step.applyAll call builder query selection steps) := by
  induction steps generalizing w selection with
  | nil => exact .pure hs
  | cons step steps ih =>
    obtain ⟨hp, hps⟩ := List.forall_mem_cons.mp hp
    refine (step.apply_sound hc hb hq hs hp).bind fun w₁ le v hv => ?_
    exact ih (hb.mono le) (hq.mono le) hv fun t ht => (hps t ht).mono le

theorem Origin.select_sound {o : Origin} (ho : o.Known w) :
    Sound w (o.select call builder query) := by
  cases o with
  | root entity =>
    exact (Value.asContext_sound hq).bind fun _ le c _ => c.addRoot_sound (Value.Known.mono le ho)
  | correlated outer =>
    have ho : outer.Known w := ho
    refine currentSubquery_sound.bind fun w₁ le₁ c _ => ?_
    refine (c.update_sound fun _ le _ _ hx h => ?_).bind fun _ le₂ _ _ =>
      .pure (ho.mono (le₁.trans le₂))
    exact Context.correlate_known hx (ho.mono (le₁.trans le)) h
  | function f => exact hc ho (by simp [hb, hq])

theorem Configurer.run_sound {c : Configurer} (h : c.Known w) :
    Sound w (c.run call builder query) := by
  obtain ⟨id, origin, steps⟩ := c
  obtain ⟨-, ho, hp⟩ := h
  refine (origin.select_sound hc hb hq ho).bind fun w₁ le v hv => ?_
  exact Step.applyAll_sound hc (hb.mono le) (hq.mono le) hv
    fun t ht => (Step.allKnown_iff.mp hp t ht).mono le

theorem configure_sound {configurer : Value} (h : configurer.Known w) :
    Sound w (configure call configurer builder query) := by
  cases configurer with
  | configurer c => exact c.run_sound hc hb hq h
  | _ => exact hc h (by simp [hb, hq])

end Steps

end Calls

/-! ### Builds -/

namespace ContextId

/-- A subquery that is put in place. -/
theorem nested_sound (c : ContextId) {f : Select → Term}
    (hf : ∀ ρ s, f (s.rename ρ) = (f s).rename ρ) :
    Sound w (do newTerm (f (← liftExcept ((← c.read).nested (← get))))) := by
  refine c.read_sound.bind fun w₁ _ x hx => .get fun m hm => ?_
  refine (liftExcept_sound (α := Select) fun s hs ρ hρ => ?_).bind fun _ _ s hs => ?_
  · exact Context.nested_fixed (hx.fixed hρ) hs
  · exact newTerm_sound (Made.map hf hs)

theorem scalar_sound (c : ContextId) : Sound w c.scalar :=
  c.nested_sound (f := .scalar) fun _ _ => rfl

theorem existence_sound (c : ContextId) : Sound w c.existence :=
  c.nested_sound (f := .nonempty) fun _ _ => rfl

end ContextId

namespace Stream

theorem logCompiled_sound (s : Stream) (q : QueryId) : Sound w (s.logCompiled q) := by
  refine .get fun m _ => .ite ?_ (.pure trivial)
  refine q.read_sound.bind fun _ _ x _ => .liftExcept_bind _ fun statement => ?_
  refine logLine_sound ((shownNow_sound _).bind fun _ _ _ _ => ?_)
  exact .orExternal_bind _ fun _ => .pure trivial

variable {s : Stream} (hs : s.Known w)

variable {call : Call}
  (hc : ∀ {w f args}, f.Known w → (∀ v ∈ args, v.Known w) → Sound w (call f args))

include hs hc

theorem toContext_sound : Sound w (s.toContext call) := by
  have hs := hs.parts
  have type := hs.queryType
  unfold toContext
  cases h : s.queryType with
  | queryType t =>
    rw [h] at type
    refine fresh_sound.bind fun w₁ le₁ id hid => ?_
    refine (QueryType.createContext_sound (QueryType.Known.mono le₁ type)).bind fun w₂ le₂ c hq => ?_
    have le := le₁.trans le₂
    have hb : (Value.criteriaBuilder id).Known w₂ := le₂.given hid
    have hq : (Value.context c).Known w₂ := hq
    refine (withFrame_sound hb hq fun w₃ le₃ f _ => ?_).bind fun w₃ le₃ built hv => ?_
    · have configurer := hs.configurer.mono (le.trans le₃)
      refine (configure_sound hc (hb.mono le₃) (hq.mono le₃) configurer).bind fun _ le₄ v hv => ?_
      exact t.select_sound (hq.mono (le₃.trans le₄)) hv
    · refine (logLine_sound ((shownNow_sound _).bind fun _ _ _ _ => ?_)).bind fun _ le₄ _ _ =>
        .pure (Value.Known.mono le₄ hv)
      exact (shownNow_sound _).bind fun _ _ _ _ => .pure trivial
  | _ => exact .fail _

theorem toQuery_sound : Sound w (s.toQuery call) := by
  have parts := hs.parts
  have type := parts.queryType
  unfold toQuery
  cases h : s.queryType with
  | queryType t =>
    refine (toContext_sound hs hc).bind fun w₁ le₁ v hv => ?_
    refine (t.createQuery_sound (parts.session.mono le₁) hv).bind fun w₂ le₂ q hq => ?_
    refine q.read_sound.bind fun w₃ le₃ x hx => ?_
    have le := (le₁.trans le₂).trans le₃
    refine (x.params.update_sound (Knowable.mono le parts.params)).bind fun w₄ le₄ _ _ => ?_
    have le := le.trans le₄
    refine (x.options.update_sound (Knowable.mono le parts.options)).bind fun w₅ le₅ _ _ => ?_
    have hx : x.Known w₅ := Knowable.mono (le₄.trans le₅) hx
    refine .bind (q.write_sound (x := ⟨x.kind, x.session, x.query, x.params, x.options, _, _⟩)
      ⟨hx.session, hx.query, hx.params, hx.options⟩) fun w₆ le₆ _ _ => ?_
    refine (s.logCompiled_sound q).bind fun _ le₇ _ _ => ?_
    exact .pure (a := Value.query q)
      ((((le₃.trans le₄).trans le₅).trans (le₆.trans le₇)).address hq)
  | _ => exact .fail _

theorem toSubquery_sound : Sound w (s.toSubquery call) := by
  have parts := hs.parts
  refine currentFrame_sound.bind fun w₁ le₁ f hf => ?_
  have blank : (Context.subquery f.query).Known w₁ :=
    Context.ofKind_known (k := .subquery .empty f.query [] []) ⟨.empty, hf.query, known_nil, known_nil⟩
  refine (ContextId.new_sound blank).bind fun w₂ le₂ c hq => ?_
  have hb := hf.builder.mono le₂
  have hv : (Value.context c).Known w₂ := hq
  refine (withFrame_sound hb hv fun w₃ le₃ _ _ => ?_).bind fun _ le₃ _ _ => .pure (le₃.address hq)
  have configurer := parts.configurer.mono ((le₁.trans le₂).trans le₃)
  refine (configure_sound hc (hb.mono le₃) (hv.mono le₃) configurer).bind fun w₄ _ v hs => ?_
  exact c.update_sound fun _ le _ _ hx h => Context.select_known hx (Value.Known.mono le hs) h

theorem asSubquery_sound : Sound w (s.asSubquery call) :=
  (toSubquery_sound hs hc).bind fun _ _ c _ => c.scalar_sound

theorem existence_sound : Sound w (s.existence call) :=
  (toSubquery_sound hs hc).bind fun _ _ c _ => c.existence_sound

end Stream

end FluentQuery
