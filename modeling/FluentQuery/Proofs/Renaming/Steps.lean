import FluentQuery.Proofs.Guarantee.Building
import FluentQuery.Proofs.Renaming.Stream
import FluentQuery.Proofs.Renaming.Views

/-! Configuring a query context, on two machines at once. A step asks no more of the two machines than
that they are alike and that the contexts it is applied to say the same of themselves. -/

namespace FluentQuery

open Sql

variable {ρ : Renaming} {F : Footprint}

/-! ### Two machines on which a context is configured -/

/-- Tells no query context anything. -/
def Untelling {α : Type} (x : Run α) : Prop := ∀ S [Creating S], Keeps S x

/-- Machines that `R` relates are alike, and it relates what comes of them, too, when corresponding
changes are made that leave query contexts alone, or corresponding operations on contexts of which
`own` tells that they correspond. What they say to one another is what `view` shows of them. -/
structure Handles (view : Context → Context) (own : ContextId → ContextId → Prop)
    (R : Machine → Machine → Prop) (ρ : Renaming) (F : Footprint) : Prop where
  alike : ∀ {m m'}, R m m' → Alike true ρ F m m'
  lift : ∀ {α : Type} [Renamable α] {x y : Run α}, Mirror ρ F x y → Untelling x → Untelling y →
    MirrorOn R ρ F x y
  seen : ∀ {c c'}, own c c' → ∀ {m m'}, R m m' →
    Counterpart ρ F ((m.context? c).map view) ((m'.context? c').map view)
  update : ∀ {c c'}, own c c' → ∀ {f g}, Context.ChangesAlike ρ F f g → Context.Through view f →
    Context.Through view g → MirrorOn R ρ F (c.update f) (c'.update g)
  updateGet : ∀ {c c'}, own c c' → ∀ {f g}, Context.GivesAlike ρ F f g →
    Context.GivesThrough view f → Context.GivesThrough view g →
    MirrorOn R ρ F (c.updateGet f) (c'.updateGet g)

/-- Corresponding queries: both are query contexts that `own` relates, or neither is one. -/
inductive Queries (own : ContextId → ContextId → Prop) : Value → Value → Prop
  | context {c c'} (h : own c c') : Queries own (.context c) (.context c')
  | other {q q'} (h : ∀ c, q ≠ .context c) (h' : ∀ c, q' ≠ .context c) (null : q'.isNull = q.isNull) :
    Queries own q q'

namespace Handles

variable {view : Context → Context} {own : ContextId → ContextId → Prop}
  {R : Machine → Machine → Prop} (H : Handles view own R ρ F) {α β : Type} [Renamable α]

include H

theorem fresh {f g : Nat → Run α} (h : ∀ n, MirrorOn R ρ F (f n) (g (ρ.number n))) :
    MirrorOn R ρ F (fresh >>= f) (fresh >>= g) := by
  let _ : Renamable Nat := ⟨Renaming.number, fun _ _ => True⟩
  have next : Mirror ρ F FluentQuery.fresh FluentQuery.fresh := fun m m' hm =>
    ⟨⟨congrArg Except.ok (hm.next 0).symm, fun _ _ => trivial⟩, { hm with
      next := fun k => by
        have later := hm.next (1 + k)
        simp only [← Nat.add_assoc] at later
        exact later }⟩
  have unseen : Untelling FluentQuery.fresh := fun _ _ => Inert.fresh
  exact (H.lift next unseen unseen).bind fun n _ => h n

theorem read {c c' : ContextId} (hc : own c c') {f g : Context → Run α}
    (h : ∀ x y, Context.Seen view ρ F x y → MirrorOn R ρ F (f x) (g y)) :
    MirrorOn R ρ F (c.read >>= f) (c'.read >>= g) := by
  intro m m' hm
  obtain ⟨eq, within⟩ := H.seen hc hm
  unfold after
  rw [exec_bind, exec_bind, exec_readContext, exec_readContext]
  cases hx : m.context? c with
  | none =>
    rw [hx] at eq
    rw [Option.map_eq_none_iff.mp eq]
    exact ⟨⟨rfl, nofun⟩, hm⟩
  | some x =>
    rw [hx] at eq within
    obtain ⟨y, hy, seen⟩ := Option.map_eq_some_iff.mp eq
    rw [hy]
    exact h x y ⟨seen, within _ rfl⟩ hm

omit H in
theorem onContext {query query' : Value} (hq : Queries own query query') {f g : ContextId → Run α}
    (h : ∀ c c', own c c' → MirrorOn R ρ F (f c) (g c')) :
    MirrorOn R ρ F (query.asContext >>= f) (query'.asContext >>= g) := by
  have refused {q : Value} (hq : ∀ c, q ≠ .context c) : q.asContext = FluentQuery.fail .external := by
    cases q with
    | context c => exact absurd rfl (hq c)
    | _ => rfl
  cases hq with
  | context hc => exact h _ _ hc
  | other h h' =>
    rw [refused h, refused h']
    exact .fail_bind _ _ _

end Handles

/-! ### Callables of a step -/

section Calls

variable {view : Context → Context} {own : ContextId → ContextId → Prop}
  {R : Machine → Machine → Prop} (H : Handles view own R ρ F) {call : Call}
  (hc : ∀ {f args}, f.Within F → (∀ v ∈ args, v.Within F) →
    MirrorOn R ρ F (call f args) (call (f.rename ρ) (args.map (Value.rename ρ))))
  {selection : Value} (hs : selection.Within F)

include H hc hs

theorem Projection.read_handled {p : Projection} (hp : p.Within F) :
    MirrorOn R ρ F (p.read call selection) ((p.rename ρ).read call (selection.rename ρ)) := by
  cases p with
  | whole => exact .pure hs
  | named key =>
    exact H.lift (resolveAttribute_mirror hs hp) (fun _ _ => resolveAttribute_keeps _ _)
      fun _ _ => resolveAttribute_keeps _ _
  | function f => exact hc hp (List.forall_mem_singleton.mpr hs)
  | held r =>
    exact H.lift (RefId.read_mirror hp) (fun _ _ => r.read_keeps) fun _ _ => RefId.read_keeps _

theorem Ordering.ordered_handled (builder : Value) {keys : List (Projection × Value)}
    (hk : ∀ x ∈ keys, x.1.Within F ∧ x.2.Within F) :
    MirrorOn R ρ F (clauses.ordered call builder selection keys)
      (clauses.ordered call (builder.rename ρ) (selection.rename ρ)
        (keys.map fun x => (x.1.rename ρ, x.2.rename ρ))) := by
  induction keys with
  | nil => exact .pure_of (fun _ h => by cases h) rfl
  | cons key keys ih =>
    obtain ⟨⟨hp, ha⟩, hk⟩ := List.forall_mem_cons.mp hk
    refine .bind (H.lift (requireBuilder_mirror builder) (fun _ _ => requireBuilder_keeps _)
      fun _ _ => requireBuilder_keeps _) fun _ _ => ?_
    refine (Projection.read_handled H hc hs hp).bind fun v hv => ?_
    refine .bind (H.lift (truth_mirror ha) (fun _ _ => truth_keeps _) fun _ _ => truth_keeps _)
      fun t _ => ?_
    refine .bind (H.lift (Expression.sorted_mirror _ v) (fun _ _ => Expression.sorted_keeps _ _)
      fun _ _ => Expression.sorted_keeps _ _) fun w hw => (ih hk).bind fun ws hws => ?_
    exact .pure_of (List.forall_mem_cons.mpr ⟨hw, hws⟩) rfl

omit hc hs in
theorem itemsOf_handled {v : Value} (hv : v.Within F) :
    MirrorOn R ρ F (itemsOf v) (itemsOf (v.rename ρ)) :=
  H.lift (itemsOf_mirror hv) (fun _ _ => itemsOf_keeps v) fun _ _ => itemsOf_keeps _

theorem Ordering.clauses_handled (builder : Value) {o : Ordering} (ho : o.Within F) :
    MirrorOn R ρ F (o.clauses call builder selection)
      ((o.rename ρ).clauses call (builder.rename ρ) (selection.rename ρ)) := by
  cases o with
  | keys keys =>
    rw [Ordering.rename, Projection.renameKeys_eq]
    exact ordered_handled H hc hs builder (Projection.keysWithin_iff.mp ho)
  | listed f =>
    exact (hc ho (List.forall_mem_singleton.mpr hs)).bind fun v hv => itemsOf_handled H hv

theorem Grouping.clauses_handled {g : Grouping} (hg : g.Within F) :
    MirrorOn R ρ F (g.clauses call selection) ((g.rename ρ).clauses call (selection.rename ρ)) := by
  cases g with
  | key p =>
    refine (Projection.read_handled H hc hs hg).bind fun v hv => ?_
    exact .pure_of (List.forall_mem_singleton.mpr hv) rfl
  | listed f =>
    exact (hc hg (List.forall_mem_singleton.mpr hs)).bind fun v hv => itemsOf_handled H hv

omit H in
theorem assignedValue_handled {v : Value} (hv : v.Within F) :
    MirrorOn R ρ F (assignedValue call selection v)
      (assignedValue call (selection.rename ρ) (v.rename ρ)) := by
  refine .ite (by rw [v.isExpression_rename, v.isCallable_rename]) ?_ (.pure hv)
  exact hc hv (List.forall_mem_singleton.mpr hs)

end Calls

/-! ### Restricting -/

section Restricting

variable {view : Context → Context} {own : ContextId → ContextId → Prop}
  {R : Machine → Machine → Prop} (H : Handles view own R ρ F)
  (shows : ∀ x, (view x).restriction = x.restriction)
  (tells : ∀ r, Context.Through view (·.restrict r))

include H

include shows in
theorem conjoin_handled (builder : Value) {c c' : ContextId} (hc : own c c') {condition : Value}
    (hv : condition.Within F) :
    MirrorOn R ρ F (conjoin builder c condition)
      (conjoin (builder.rename ρ) c' (condition.rename ρ)) := by
  refine H.read hc fun x y seen => ?_
  obtain ⟨eq, -⟩ := seen.restriction shows
  rw [eq, renamable_value]
  refine .ite (by rw [Value.isNull_rename]) (.pure hv) ?_
  refine H.lift ((requireBuilder_mirror builder).bind fun _ _ => ?_) (fun _ _ => ?_) fun _ _ => ?_
  · exact Expression.connect_mirror .and [x.restriction, condition]
  · exact (requireBuilder_keeps _).bind fun _ => Expression.connect_keeps _ _
  · exact (requireBuilder_keeps _).bind fun _ => Expression.connect_keeps _ _

include tells in
theorem QueryType.restrict_handled {query query' : Value} (hq : Queries own query query')
    {r : Value} (hr : r.Within F) :
    MirrorOn R ρ F (QueryType.restrict query r) (QueryType.restrict query' (r.rename ρ)) := by
  have null : query'.isNull = query.isNull := by
    cases hq with
    | context => rfl
    | other _ _ null => exact null
  refine .guarded (by rw [null]) (.guarded (by rw [r.isNull_rename]) ?_)
  exact Handles.onContext hq fun c c' hc =>
    H.update hc (Context.restrict_alike hr) (tells _) (tells _)

include shows tells in
/-- A filter joins what its predicate gives to what both contexts are restricted by. -/
theorem Step.filter_handled {call : Call}
    (hc : ∀ {f args}, f.Within F → (∀ v ∈ args, v.Within F) →
      MirrorOn R ρ F (call f args) (call (f.rename ρ) (args.map (Value.rename ρ))))
    (builder : Value) {query query' selection : Value} (hq : Queries own query query')
    (hs : selection.Within F) (queryType queryType' : Value)
    (types : (∃ t, queryType = .queryType t) ↔ ∃ t, queryType' = .queryType t) {p : Projection}
    (hp : p.Within F) :
    MirrorOn R ρ F ((filter queryType p).apply call builder query selection)
      ((filter queryType' (p.rename ρ)).apply call (builder.rename ρ) query'
        (selection.rename ρ)) := by
  refine (p.read_handled H hc hs hp).bind fun v hv => Handles.onContext hq fun c c' own => ?_
  refine (conjoin_handled H shows builder own hv).bind fun r hr => ?_
  by_cases h : ∃ t, queryType = .queryType t
  · obtain ⟨t', rfl⟩ := types.mp h
    obtain ⟨t, rfl⟩ := h
    exact (QueryType.restrict_handled H tells hq hr).bind fun _ _ => .pure hs
  · have h' := mt types.mpr h
    cases queryType <;> cases queryType' <;> first | exact .fail_bind _ _ _ | simp at h h'

end Restricting

/-! ### Steps -/

/-- Whether a step hands the query context to a function of the program. -/
def Step.hands : Step → Bool
  | modify _ | transform _ => true
  | _ => false

section Steps

variable {own : ContextId → ContextId → Prop} {R : Machine → Machine → Prop}
  (H : Handles Context.orphaned own R ρ F)

include H

theorem Handles.onOutermost {α : Type} [Renamable α] {query query' : Value}
    (hq : Queries own query query') (a : Arranging) {f g : ContextId → Run α}
    (h : ∀ c c', own c c' → MirrorOn R ρ F (f c) (g c')) :
    MirrorOn R ρ F (requireOutermost query a >>= f) (requireOutermost query' a >>= g) := by
  cases hq with
  | context hc =>
    unfold requireOutermost
    simp only [bind_assoc]
    refine H.read hc fun x y kin => ?_
    rw [Context.Kin.isQuery kin]
    split
    · rw [pure_bind, pure_bind]
      exact h _ _ hc
    · exact .fail_bind _ _ _
  | other h h' =>
    have refused {q : Value} (hq : ∀ c, q ≠ .context c) :
        requireOutermost q a = fail (.arrangedSubquery a) := by
      cases q with
      | context c => exact absurd rfl (hq c)
      | _ => rfl
    rw [refused h, refused h']
    exact .fail_bind _ _ _

theorem Handles.change {c c' : ContextId} (hc : own c c') {f g : Context → Except Error Context}
    (h : Context.ChangesAlike ρ F f g) (hf : Context.Change f) (hg : Context.Change g) :
    MirrorOn R ρ F (c.update f) (c'.update g) :=
  H.update hc h hf.through hg.through

namespace ContextId

variable {c c' : ContextId} (hc : own c c')

include hc

theorem addRoot_handled {entity : Value} (he : entity.Within F) :
    MirrorOn R ρ F (c.addRoot entity) (c'.addRoot (entity.rename ρ)) := by
  refine H.read hc fun x y kin => ?_
  obtain ⟨eq, within⟩ := Context.Kin.target? kin
  rw [eq]
  cases ht : x.target? with
  | none =>
    exact H.fresh fun id => H.updateGet hc (Context.addRoot_alike id he)
      (Context.addRoot_through _ _) (Context.addRoot_through _ _)
  | some v =>
    have hv : v.Within F := within v ht
    refine .ite (by rw [renamable_value, Value.same_rename]) (.pure hv) ?_
    rw [Context.Kin.className kin]
    have shown {w : Value} (hw : w.Within F) : MirrorOn R ρ F (shownNow w) (shownNow (w.rename ρ)) :=
      H.lift (shownNow_mirror hw) (fun _ _ => shownNow_keeps _) fun _ _ => shownNow_keeps _
    exact (shown hv).bind fun s _ => (shown he).bind fun t _ => .fail _

omit hc in
/-- The truth of a value of the footprint is the same on both machines. -/
theorem truth_handled {α : Type} [Renamable α] {v : Value} (hv : v.Within F)
    {f g : Machine → Run α}
    (h : ∀ n n', (v.rename ρ).truth? n' = v.truth? n → MirrorOn R ρ F (f n) (g n')) :
    MirrorOn R ρ F (get >>= f) (get >>= g) := by
  intro n n' hn
  unfold after
  rw [exec_bind_of_ok (exec_get n), exec_bind_of_ok (exec_get n')]
  exact h n n' (Value.truth?_alike (H.alike hn).toStoresAlike hv) hn

theorem joinUnmapped_handled (r : Relationship) {outer : Value} (ho : outer.Within F) :
    MirrorOn R ρ F (c.joinUnmapped r outer) (c'.joinUnmapped r (outer.rename ρ)) := by
  refine truth_handled H ho fun n n' truth => ?_
  rw [truth]
  split
  · exact .fail _
  · exact .fail _
  · exact .fail _
  · have plain : (Value.mapped ⟨r.target, none⟩).Within F := trivial
    exact (addRoot_handled H hc plain).discard.bind fun _ _ => .fail _

theorem join_handled {owner key : Value} (outer : Value) (hw : owner.Within F) (hk : key.Within F)
    (ho : outer.Within F) :
    MirrorOn R ρ F (c.join owner key outer)
      (c'.join (owner.rename ρ) (key.rename ρ) (outer.rename ρ)) := by
  refine H.read hc fun x y kin => .guarded (by rw [Context.Kin.isSelecting kin]) ?_
  refine .bind (H.lift (resolveRelationship_mirror hw hk) (fun _ _ => resolveRelationship_keeps _ _)
    fun _ _ => resolveRelationship_keeps _ _) fun (m, r) _ => ?_
  rw [Context.Kin.correlates kin]
  refine .ite (by rw [Value.source?_rename, Option.isNone_map]) (joinUnmapped_handled H hc r ho)
    (H.fresh fun id => truth_handled H ho fun n n' truth => ?_)
  rw [truth]
  exact H.updateGet hc (Context.join_alike id (x.correlates owner) m r ho (outer.truth? n))
    (Context.join_through _ _ _ _ _ _) (Context.join_through _ _ _ _ _ _)

theorem assign_handled {key v : Value} (hk : key.Within F) (hv : v.Within F) :
    MirrorOn R ρ F (c.assign key v) (c'.assign (key.rename ρ) (v.rename ρ)) := by
  refine H.read hc fun x y kin => ?_
  obtain ⟨restriction, kind⟩ := x
  obtain ⟨restriction', kind'⟩ := y
  have same := congrArg Context.kind kin.eq
  cases kind <;> cases kind' <;> try first | exact .fail _ | cases same
  refine .bind (H.lift (resolveAttribute_mirror kin.within.kind.1 hk)
    (fun _ _ => resolveAttribute_keeps _ _) fun _ _ => resolveAttribute_keeps _ _) fun a _ => ?_
  cases a with
  | member a =>
    refine .bind (H.lift (register_mirror v) (fun _ _ => register_keeps _) fun _ _ => register_keeps _)
      fun _ _ => ?_
    exact H.change hc (Context.assign_alike a.key hv) (.assign _ _) (.assign _ _)
  | _ => exact .fail _

theorem nested_handled {f : Select → Term} (hf : ∀ s, f (s.rename ρ) = (f s).rename ρ) :
    MirrorOn R ρ F (do newTerm (f (← liftExcept ((← c.read).nested (← get)))))
      (do newTerm (f (← liftExcept ((← c'.read).nested (← get))))) := by
  refine H.read hc fun x y kin n n' hn => ?_
  have nested : y.nested n' = (x.nested n).map (Select.rename ρ) := by
    rw [← y.nested_orphaned, kin.eq, ← x.nested_orphaned]
    exact Context.nested_alike (H.alike hn).toStoresAlike kin.within
  have made : MirrorOn R ρ F (do newTerm (f (← liftExcept (x.nested n))))
      (do newTerm (f (← liftExcept (y.nested n')))) := by
    refine H.lift ?_ (fun _ _ => ?_) fun _ _ => ?_
    · exact (liftExcept_mirror ⟨nested, fun _ _ => trivial⟩).bind fun s _ => newTerm_mirror_of (hf s)
    · exact (liftExcept_keeps _).bind fun _ => newTerm_keeps _
    · exact (liftExcept_keeps _).bind fun _ => newTerm_keeps _
  unfold after
  rw [exec_bind_of_ok (exec_get n), exec_bind_of_ok (exec_get n')]
  exact made hn

end ContextId

theorem countSelection_handled (builder : Value) {c c' : ContextId} (hc : own c c')
    {selection : Value} (hs : selection.Within F) :
    MirrorOn R ρ F (countSelection builder c selection)
      (countSelection (builder.rename ρ) c' (selection.rename ρ)) := by
  refine H.read hc fun x y kin => ?_
  rw [Context.Kin.body? kin]
  cases body : x.kind.body? with
  | none => exact .fail_bind _ _ _
  | some b =>
    have hd : b.distinct.Within F := (Context.Kin.body?_within kin body).distinct
    simp only [Option.map_some, pure_bind]
    refine (H.change hc (Context.distinct_alike (v := .bool false) trivial) (.distinct _)
      (.distinct _)).bind fun _ _ => ?_
    have builds : MirrorOn R ρ F builder.requireBuilder (builder.rename ρ).requireBuilder :=
      H.lift (requireBuilder_mirror builder) (fun _ _ => requireBuilder_keeps _)
        fun _ _ => requireBuilder_keeps _
    have decides : MirrorOn R ρ F b.distinct.truth (b.distinct.rename ρ).truth :=
      H.lift (truth_mirror hd) (fun _ _ => truth_keeps _) fun _ _ => truth_keeps _
    have counts (vs : List Value) (hv : ∀ v ∈ vs, v.Within F) : MirrorOn R ρ F
        (Expression.call "count" vs) (Expression.call "count" (vs.map (Value.rename ρ))) :=
      H.lift (Expression.call_mirror "count" vs hv) (fun _ _ => Expression.call_keeps _ _)
        fun _ _ => Expression.call_keeps _ _
    have rows : MirrorOn R ρ F (do builder.requireBuilder; Expression.call "count" [])
        (do (builder.rename ρ).requireBuilder; Expression.call "count" []) :=
      builds.bind fun _ _ => counts [] fun _ h => by cases h
    have single {v : Value} (hv : v.Within F) : MirrorOn R ρ F
        (do
          builder.requireBuilder
          if ← b.distinct.truth then Expression.countDistinct v
          else if v.isNull then Expression.call "count" []
          else Expression.call "count" [v])
        (do
          (builder.rename ρ).requireBuilder
          if ← (b.distinct.rename ρ).truth then Expression.countDistinct (v.rename ρ)
          else if (v.rename ρ).isNull then Expression.call "count" []
          else Expression.call "count" [v.rename ρ]) := by
      refine builds.bind fun _ _ => decides.bind fun t _ => ?_
      refine .ite Iff.rfl ?_ (.ite (by rw [v.isNull_rename]) ?_ ?_)
      · exact H.lift (Expression.countDistinct_mirror v) (fun _ _ => Expression.countDistinct_keeps _)
          fun _ _ => Expression.countDistinct_keeps _
      · exact counts [] fun _ h => by cases h
      · exact counts [v] (List.forall_mem_singleton.mpr hv)
    have listed : MirrorOn R ρ F
        (do
          if ← b.distinct.truth then fail .countDistinctRows
          builder.requireBuilder
          Expression.call "count" [])
        (do
          if ← (b.distinct.rename ρ).truth then fail .countDistinctRows
          (builder.rename ρ).requireBuilder
          Expression.call "count" []) :=
      decides.bind fun t _ => .guarded Iff.rfl rows
    cases selection with
    | tuple | list => exact listed
    | mapped => exact rows
    | _ => exact single hs

variable {call : Call}
  (hc : ∀ {f args}, f.Within F → (∀ v ∈ args, v.Within F) →
    MirrorOn R ρ F (call f args) (call (f.rename ρ) (args.map (Value.rename ρ))))

include hc

/-- A step does on both machines the same to corresponding queries, unless it hands them out. -/
theorem Step.apply_handled (builder : Value) {query query' : Value} (hq : Queries own query query')
    {selection : Value} (hs : selection.Within F) {step : Step} (keeps : step.hands = false)
    (hp : step.Within F) :
    MirrorOn R ρ F (step.apply call builder query selection)
      ((step.rename ρ).apply call (builder.rename ρ) query' (selection.rename ρ)) := by
  have same : MirrorOn R ρ F (pure selection) (pure (selection.rename ρ)) := .pure hs
  have all {v : Value} (hv : v.Within F) : ∀ w ∈ [v], w.Within F := List.forall_mem_singleton.mpr hv
  have binds {r : RefId} (hr : F.address .refs r.index) {v : Value} (hv : v.Within F) :
      MirrorOn R ρ F (r.bind v) ((r.rename ρ).bind (v.rename ρ)) :=
    H.lift (RefId.bind_mirror hr hv) (fun _ _ => Creating.bind _ _) fun _ _ => Creating.bind _ _
  cases step with
  | filter queryType p =>
    refine Step.filter_handled H Context.restriction_orphaned
      (fun r => (Context.Change.restrict r).through) hc builder hq hs _ _ ?_ hp.2
    cases queryType <;> simp [Value.rename]
  | peek f => exact (hc hp (all hs)).discard.bind fun _ _ => same
  | bind r p =>
    exact (p.read_handled H hc hs hp.2).bind fun v hv => (binds hp.1 hv).bind fun _ _ => same
  | distinct =>
    refine Handles.onContext hq fun c c' own => ?_
    exact (H.change own (Context.distinct_alike (v := .bool true) trivial) (.distinct _)
      (.distinct _)).bind fun _ _ => same
  | sort o =>
    refine H.onOutermost hq .sort fun c c' own => ?_
    refine (o.clauses_handled H hc hs builder hp).bind fun items hi => ?_
    exact (H.change own (Context.orderBy_alike hi) (.orderBy _) (.orderBy _)).bind fun _ _ => same
  | group g =>
    refine H.onOutermost hq .group fun c c' own => ?_
    refine (g.clauses_handled H hc hs hp).bind fun items hi => ?_
    exact (H.change own (Context.groupBy_alike hi) (.groupBy _) (.groupBy _)).bind fun _ _ => same
  | having p =>
    refine Handles.onContext hq fun c c' own => H.read own fun x y kin => ?_
    refine .guarded (by rw [Context.Kin.isSelecting kin]) ?_
    refine (p.read_handled H hc hs hp).bind fun v hv => ?_
    exact (H.change own (Context.having_alike hv) (.having _) (.having _)).bind fun _ _ => same
  | addRoot r entity =>
    refine Handles.onContext hq fun c c' own => ?_
    exact (ContextId.addRoot_handled H own hp.2).bind fun v hv => (binds hp.1 hv).bind fun _ _ => same
  | join key outer =>
    exact Handles.onContext hq fun c c' own => ContextId.join_handled H own outer hs hp.1 hp.2
  | map p => exact p.read_handled H hc hs hp
  | count => exact Handles.onContext hq fun c c' own => countSelection_handled H builder own hs
  | assign key v =>
    refine Handles.onContext hq fun c c' own => H.read own fun x y kin => ?_
    refine .guarded (by rw [Context.Kin.isUpdate kin]) ?_
    refine (assignedValue_handled hc hs hp.2).bind fun w hw => ?_
    exact (ContextId.assign_handled H own hp.1 hw).bind fun _ _ => same
  | bounded b =>
    cases hq with
    | context own =>
      refine H.read own fun x y kin => ?_
      exact .guarded (by rw [Context.Kin.isSubquery kin]) same
    | other h h' =>
      cases query <;> cases query' <;> first | exact same | simp at h h'
  | modify f => cases keeps
  | transform f => cases keeps

theorem Step.applyAll_handled (builder : Value) {query query' : Value}
    (hq : Queries own query query') {selection : Value} (hs : selection.Within F)
    {steps : List Step} (keeps : ∀ step ∈ steps, step.hands = false)
    (hp : ∀ step ∈ steps, step.Within F) :
    MirrorOn R ρ F (Step.applyAll call builder query selection steps)
      (Step.applyAll call (builder.rename ρ) query' (selection.rename ρ)
        (steps.map (Step.rename ρ))) := by
  induction steps generalizing selection with
  | nil => exact .pure hs
  | cons step steps ih =>
    obtain ⟨hp, hps⟩ := List.forall_mem_cons.mp hp
    obtain ⟨keep, keeps⟩ := List.forall_mem_cons.mp keeps
    exact (step.apply_handled H hc builder hq hs keep hp).bind fun v hv => ih hv keeps hps

end Steps

end FluentQuery
