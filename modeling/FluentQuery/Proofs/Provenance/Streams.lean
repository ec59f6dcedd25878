import FluentQuery.Proofs.Provenance.Library

/-! Streams made of known values are known from then on as the ones made with their numbers, and
builds of known streams come to known values. -/

namespace FluentQuery

open Sql

variable {w w' : Moment}

instance : Knowable Step := ⟨Step.Known, fun le _ h => h.mono le⟩

instance : Knowable Configurer := ⟨Configurer.Known, fun le _ h => h.mono le⟩

/-! ### Arguments -/

theorem itemsOf_sound {v : Value} (hv : v.Known w) : Sound w (itemsOf v) := by
  cases v with
  | list | tuple | row => exact .pure (Value.allKnown_iff.mp hv.2)
  | text id s => exact .mapM (fun _ _ => trivial) fun _ _ _ _ => newText_sound _
  | mapping i =>
    refine .positive fun positive => i.read_sound.bind fun _ le fields _ => .pure fun u hu => ?_
    obtain ⟨x, _, rfl⟩ := List.mem_map.mp hu
    exact le.given positive
  | _ => exact .fail _

theorem selector_sound (what : String) {target : Value} (ht : target.Known w) :
    Sound w (selector what target) := by
  have function : Sound w (do
      if target.isCallable then return Projection.function target
      else fail (.notSelector what (← classNow target))) :=
    .ite (.pure (a := Projection.function target) ht)
      ((classNow_sound target).bind fun _ _ _ _ => .fail _)
  refine .guarded ?_
  cases target with
  | text id s => exact .pure (a := Projection.named (.text id s)) ht
  | member a => exact .pure (a := Projection.named (.member a)) ht
  | _ => exact function

theorem expressionSelector_sound (what : String) {target : Value} (ht : target.Known w) :
    Sound w (expressionSelector what target) := by
  cases target with
  | ref r => exact .pure (a := Projection.held r) ht
  | _ => exact selector_sound what ht

theorem requireUnbound_sound {v : Value} (hv : v.Known w) : Sound w (requireUnbound v) := by
  cases v with
  | ref r => exact r.isBound_sound.bind fun _ le _ _ => .ite (.fail _) (.pure (le.address hv))
  | _ => exact .fail _

theorem requireBound_sound (b : Bounding) (v : Value) : Sound w (requireBound b v) :=
  (orExternal_sound fun _ _ => trivial).bind fun _ _ _ _ => .guarded (.pure trivial)

theorem fieldOf_sound {v : Value} (hv : v.Known w) : Sound w (fieldOf v) := by
  refine (itemsOf_sound hv).bind fun w₁ _ items hi => ?_
  match items with
  | [] => exact .fail _
  | [key] | key :: _ :: _ :: _ => cases key <;> exact .fail _
  | [key, u] =>
    cases key with
    | text id k => exact .pure (a := (k, u)) ⟨trivial, hi u (by simp)⟩
    | _ => exact .fail _

theorem fieldsOf_sound {v : Value} (hv : v.Known w) : Sound w (fieldsOf v) := by
  refine (truth_sound v).bind fun w₁ le _ _ => .ite (.pure known_nil) ?_
  have listed : Sound w₁ (do return override [] (← (← itemsOf v).mapM fieldOf)) := by
    refine (itemsOf_sound (hv.mono le)).bind fun w₂ _ items hi => ?_
    refine (Sound.mapM hi fun _ _ u hu => fieldOf_sound hu).bind fun _ _ fields hf => ?_
    exact .pure (known_override known_nil hf)
  cases v with
  | mapping i => exact i.read_sound
  | _ => exact listed

theorem Configurer.extend_sound {v : Value} (hv : v.Known w) {step : Step} (hp : step.Known w) :
    Sound w (Configurer.extend v step) := by
  refine fresh_sound.bind fun w₁ le id hid => ?_
  have one : Step.AllKnown w₁ [step] := ⟨hp.mono le, trivial⟩
  cases v with
  | configurer c =>
    obtain ⟨n, origin, steps⟩ := c
    obtain ⟨-, ho, hs⟩ := hv.mono le
    refine .pure (a := Value.configurer ⟨id, origin, steps ++ [step]⟩) ⟨hid, ho, ?_⟩
    exact Step.allKnown_iff.mpr
      (List.forall_mem_append.mpr ⟨Step.allKnown_iff.mp hs, Step.allKnown_iff.mp one⟩)
  | _ => exact .pure (a := Value.configurer ⟨id, .function _, [step]⟩) ⟨hid, hv.mono le, one⟩

theorem Stream.requireNatural_sound (b : Bounding) (v : Value) :
    Sound w (Stream.requireNatural b v) := by
  unfold Stream.requireNatural
  split
  · exact .fail _
  · split
    · exact .ite (.fail _) (.pure trivial)
    · exact .fail _

theorem registerAll_sound {fields : List (String × Value)} (hf : Known w fields) :
    Sound w (fields.forM fun x => register x.2) :=
  Sound.forM hf fun _ _ _ hx => register_sound hx.2

namespace Stream

/-! ### Every stream -/

theorem new_sound (kind : StreamKind) (first max : Value) {session queryType configurer : Value}
    {params options : Value} (hs : session.Known w) (ht : queryType.Known w)
    (hc : configurer.Known w) (hp : params.Known w) (ho : options.Known w) :
    Sound w (Stream.new kind session queryType configurer first max params options) := by
  refine .guarded (.guarded (.guarded ?_))
  refine (requireBound_sound _ _).bind fun w₁ le₁ _ _ => ?_
  refine (requireBound_sound _ _).bind fun w₂ le₂ _ _ => ?_
  have le := le₁.trans le₂
  refine (fieldsOf_sound (hp.mono le)).bind fun w₃ le₃ ps hps => ?_
  refine (fieldsOf_sound (ho.mono (le.trans le₃))).bind fun w₄ le₄ os hos => ?_
  refine (registerAll_sound (Knowable.mono le₄ hps)).bind fun w₅ le₅ _ _ => ?_
  have later := (le.trans le₃).trans (le₄.trans le₅)
  exact freshStream_sound (fun _ => rfl) fun _ => ⟨hs.mono later, ht.mono later, hc.mono later,
    Knowable.mono (le₄.trans le₅) hps, Knowable.mono le₅ hos⟩

variable {s : Stream} (hs : s.Known w)

include hs

/-- A step more, on a stream that may be changed in its row bounds. -/
theorem extend_with_sound (step : Step) (hp : step.Known w) {g : Stream → Stream}
    (id : ∀ t, (g t).id = t.id)
    (parts : ∀ {w' : Moment} {t}, t.PartsKnown w' → (g t).PartsKnown w') :
    Sound w (do return g (← s.extend step)) := by
  have eq : (do return g (← s.extend step)) = (do
      let configurer ← Configurer.extend s.configurer step
      return g { s with id := ← fresh, configurer }) := by simp [extend]
  have hs := hs.parts
  rw [eq]
  refine (Configurer.extend_sound hs.configurer hp).bind fun w₁ le c hc => ?_
  refine freshStream_sound (f := fun n => g { s with id := n, configurer := c }) (fun _ => id _)
    fun _ => parts ?_
  exact { hs.mono le with configurer := hc }

theorem extend_sound (step : Step) (hp : step.Known w) : Sound w (s.extend step) := by
  have sound := extend_with_sound hs step hp (g := fun t => t) (fun _ => rfl) fun h => h
  rwa [bind_pure] at sound

omit hs in
theorem requireUnbounded_sound (operation : String) : Sound w (s.requireUnbounded operation) :=
  .ite (.fail _) (.pure trivial)

/-- A step that row bounds refuse. -/
theorem unbounded_extend_sound (operation : String) (step : Step) (hp : step.Known w) :
    Sound w (do
      s.requireUnbounded operation
      s.extend step) :=
  (requireUnbounded_sound operation).bind fun _ le _ _ => extend_sound (hs.mono le) step (hp.mono le)

theorem bind_sound {ref function : Value} (hr : ref.Known w) (hf : function.Known w) :
    Sound w (s.bind ref function) := by
  have bound {w' : Moment} (le : w.Le w') {p : Projection} (hp : p.Known w') :
      Sound w' (do s.extend (.bind (← requireUnbound ref) p)) :=
    (requireUnbound_sound (hr.mono le)).bind fun _ le' r hr =>
      extend_sound (hs.mono (le.trans le')) (.bind r p) ⟨hr, hp.mono le'⟩
  refine .guarded (.ite ?_ ?_)
  · exact bound (.refl w) (p := .whole) trivial
  · exact (selector_sound _ hf).bind fun _ le p hp => bound le hp

theorem peek_sound {f : Value} (hf : f.Known w) : Sound w (s.peek f) :=
  .guarded (extend_sound hs (.peek f) hf)

theorem filter_sound {v : Value} (hv : v.Known w) : Sound w (s.filter v) := by
  refine (selector_sound _ hv).bind fun w₁ le p hp => ?_
  have hs := hs.mono le
  exact unbounded_extend_sound hs _ (.filter s.queryType p) ⟨hs.parts.queryType, hp⟩

theorem limit_sound (v : Value) : Sound w (s.limit v) :=
  (Stream.requireNatural_sound _ v).bind fun _ le _ _ =>
    extend_with_sound (hs.mono le) (.bounded .limit) trivial
      (g := fun t => { t with maxResults := _ }) (fun _ => rfl) fun h => { h with }

theorem skip_sound (v : Value) : Sound w (s.skip v) := by
  have extended {w' : Moment} (le : w.Le w') (firstResult : Bound) :
      Sound w' (do return { ← s.extend (.bounded .skip) with firstResult }) :=
    extend_with_sound (hs.mono le) (.bounded .skip) trivial
      (g := fun t => { t with firstResult }) (fun _ => rfl) fun h => { h with }
  refine (Stream.requireNatural_sound _ v).bind fun w₁ le₁ x _ => .ite ?_ ?_
  · exact (orExternal_sound fun _ _ => trivial).bind fun _ le₂ _ _ => extended (le₁.trans le₂) _
  · exact extended le₁ _

theorem withParams_sound {params : List (String × Value)} (hp : FluentQuery.Known w params) :
    Sound w (s.withParams params) := by
  refine (registerAll_sound hp).bind fun w₁ le _ _ => ?_
  have hs := hs.parts.mono le
  exact freshStream_sound (fun _ => rfl) fun _ =>
    { hs with params := known_override hs.params (Knowable.mono le hp) }

theorem withOptions_sound {options : List (String × Value)} (ho : FluentQuery.Known w options) :
    Sound w (s.withOptions options) :=
  have hs := hs.parts
  freshStream_sound (fun _ => rfl) fun _ => { hs with options := known_override hs.options ho }

/-! ### Searches -/

theorem distinct_sound : Sound w s.distinct := unbounded_extend_sound hs _ .distinct trivial

theorem sort_sound {o : Ordering} (ho : o.Known w) : Sound w (s.sort o) :=
  unbounded_extend_sound hs _ (.sort o) ho

theorem orderBy_sound {target ascending : Value} (ht : target.Known w) (ha : ascending.Known w) :
    Sound w (s.orderBy target ascending) :=
  (expressionSelector_sound _ ht).bind fun _ le p hp =>
    sort_sound (hs.mono le) (o := .keys [(p, ascending)]) ⟨⟨hp, ha.mono le⟩, trivial⟩

omit hs in
theorem orderKeys_sound {orders : List Value} (ho : ∀ v ∈ orders, v.Known w) (position : Nat) :
    Sound w (orderKeys position orders) := by
  fun_induction orderKeys position orders generalizing w with
  | case1 => exact .pure fun _ h => by cases h
  | case2 position id key ascending rest ih =>
    obtain ⟨pair, later⟩ := List.forall_mem_cons.mp ho
    obtain ⟨-, hk, ha, -⟩ := pair
    refine (selector_sound _ hk).bind fun w₁ le₁ p hp => ?_
    refine (ih fun v hv => (later v hv).mono le₁).bind fun w₂ le₂ keys hks => .pure ?_
    exact List.forall_mem_cons.mpr ⟨⟨Projection.Known.mono le₂ hp, ha.mono (le₁.trans le₂)⟩, hks⟩
  | case3 => exact .fail _

theorem orderByAttributes_sound {orders : List Value} (ho : ∀ v ∈ orders, v.Known w) :
    Sound w (s.orderByAttributes orders) := by
  refine .guarded ((orderKeys_sound ho 1).bind fun w₁ le keys hk => ?_)
  exact sort_sound (hs.mono le) (o := .keys keys) (Projection.keysKnown_iff.mpr hk)

theorem orderByListed_sound {f : Value} (hf : f.Known w) : Sound w (s.orderByListed f) :=
  .guarded (sort_sound hs (o := .listed f) hf)

theorem group_sound {g : Grouping} (hg : g.Known w) : Sound w (s.group g) :=
  unbounded_extend_sound hs _ (.group g) hg

theorem groupBy_sound {target : Value} (ht : target.Known w) : Sound w (s.groupBy target) :=
  (expressionSelector_sound _ ht).bind fun _ le p hp => group_sound (hs.mono le) (g := .key p) hp

theorem groupByListed_sound {f : Value} (hf : f.Known w) : Sound w (s.groupByListed f) :=
  .guarded (group_sound hs (g := .listed f) hf)

theorem having_sound {v : Value} (hv : v.Known w) : Sound w (s.having v) :=
  (selector_sound _ hv).bind fun _ le p hp =>
    unbounded_extend_sound (hs.mono le) _ (.having p) hp

theorem addRoot_sound {ref entity : Value} (hr : ref.Known w) (he : entity.Known w) :
    Sound w (s.addRoot ref entity) :=
  .guarded (.guarded ((requireUnbound_sound hr).bind fun _ le r hr =>
    unbounded_extend_sound (hs.mono le) _ (.addRoot r entity) ⟨hr, he.mono le⟩))

theorem join_sound {key outer : Value} (hk : key.Known w) (ho : outer.Known w) :
    Sound w (s.join key outer) :=
  .guarded (unbounded_extend_sound hs _ (.join key outer) ⟨hk, ho⟩)

theorem map_sound {target : Value} (ht : target.Known w) : Sound w (s.map target) :=
  (selector_sound _ ht).bind fun _ le p hp => extend_sound (hs.mono le) (.map p) hp

theorem count_sound : Sound w s.count := extend_sound hs .count trivial

/-! ### Updates -/

theorem assign_sound {key v : Value} (hk : key.Known w) (hv : v.Known w) :
    Sound w (s.assign key v) :=
  .guarded (unbounded_extend_sound hs _ (.assign key v) ⟨hk, hv⟩)

end Stream

/-! ### Query types -/

namespace QueryType

theorem new_sound (purpose : Purpose) {entity : Value} (he : entity.Known w) :
    Sound w (QueryType.new purpose entity) :=
  .guarded (fresh_sound.bind fun _ le id hid => .pure (a := QueryType.mk id purpose entity)
    ⟨hid, he.mono le⟩)

variable {t : QueryType} (ht : t.Known w)

include ht in
theorem createContext_sound : Sound w t.createContext := by
  have entity := ht.entity
  refine ContextId.new_sound ?_
  split
  · exact Context.ofKind_known (k := .query .empty []) ⟨.empty, fun _ h => by cases h⟩
  · exact Context.ofKind_known (k := .delete t.entity) entity
  · exact Context.ofKind_known (k := .update t.entity []) ⟨entity, fun _ h => by cases h⟩

theorem select_sound (t : QueryType) {query selection : Value} (hq : query.Known w)
    (hs : selection.Known w) : Sound w (t.select query selection) := by
  unfold select
  split
  · exact .pure hq
  · exact .pure hq
  · split
    · rename_i c
      refine c.read_sound.bind fun w₁ le₁ x _ => .guarded ?_
      refine (c.update_sound fun _ le₂ _ _ hx h => ?_).bind fun _ le₂ _ _ => ?_
      · exact Context.select_known hx (hs.mono (le₁.trans le₂)) h
      · exact .pure (Value.Known.mono (le₁.trans le₂) hq)
    · exact (classNow_sound _).bind fun _ _ _ _ => .fail _

theorem createQuery_sound (t : QueryType) {session query : Value} (hs : session.Known w)
    (hq : query.Known w) : Sound w (t.createQuery session query) := by
  refine .guarded (.guarded ?_)
  refine (MappingId.new_sound known_nil).bind fun w₁ le₁ params hp => ?_
  refine (MappingId.new_sound known_nil).bind fun w₂ le₂ options ho => ?_
  have le := le₁.trans le₂
  exact QueryId.new_sound ⟨hs.mono le, hq.mono le, le₂.address hp, ho⟩

theorem restrict_sound {query restriction : Value} (hq : query.Known w)
    (hr : restriction.Known w) : Sound w (QueryType.restrict query restriction) := by
  refine .guarded (.guarded ((Value.asContext_sound hq).bind fun _ le₁ c _ => ?_))
  exact c.update_sound fun _ le₂ _ _ hx h => Context.restrict_known hx (hr.mono (le₁.trans le₂)) h

end QueryType

namespace Stream

theorem start_sound {session : Value} (hs : session.Known w) {t : QueryType} (ht : t.Known w)
    {c : Configurer} (hc : c.Known w) : Sound w (Stream.start session t c) :=
  freshStream_sound (fun _ => rfl) fun _ =>
    ⟨hs, ht, hc, known_nil, known_nil⟩

/-- A stream over an entity, from an origin. -/
theorem start_fresh_sound {session : Value} (hs : session.Known w) {t : QueryType} (ht : t.Known w)
    (origin : Origin) (ho : origin.Known w) :
    Sound w (do
      let configurer : Configurer := ⟨← fresh, origin, []⟩
      start session t configurer) :=
  fresh_sound.bind fun _ le id hid =>
    start_sound (hs.mono le) (ht.mono le) (c := ⟨id, origin, []⟩) ⟨hid, ho.mono le, trivial⟩

theorem ofEntity_sound (purpose : Purpose) {session entity : Value} (hs : session.Known w)
    (he : entity.Known w) : Sound w (Stream.ofEntity purpose session entity) :=
  .guarded ((QueryType.new_sound purpose he).bind fun _ le _ ht =>
    start_fresh_sound (hs.mono le) ht (.root entity) (he.mono le))

theorem ofRoot_sound {session root : Value} (hs : session.Known w) (hr : root.Known w) :
    Sound w (Stream.ofRoot session root) := by
  refine .guarded ?_
  split
  · exact (shownNow_sound _).bind fun _ _ _ _ => .fail _
  · rename_i e _
    have entity : (Value.mapped ⟨e, none⟩).Known w := fun _ _ => rfl
    exact (QueryType.new_sound .search entity).bind fun _ le _ ht =>
      start_fresh_sound (hs.mono le) ht (.correlated root) (hr.mono le)

end Stream

end FluentQuery
