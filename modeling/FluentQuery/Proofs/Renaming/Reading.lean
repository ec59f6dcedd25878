import FluentQuery.Proofs.Renaming.Machine

/-! What is read off machines that are alike: truths, class names and texts are the same, statements
the same up to the renaming. -/

namespace FluentQuery

open Sql

variable {ρ : Renaming} {F : Footprint} {m m' : Machine}

/-! ### Truths and names of classes -/

namespace Value

theorem truth?_alike (hm : StoresAlike ρ F m m') {v : Value} (hv : v.Within F) :
    (v.rename ρ).truth? m' = v.truth? m := by
  cases v with
  | list | tuple | row => simp [truth?]
  | term id t =>
    cases t with
    | compare op => cases op <;> rfl
    | _ => rfl
  | mapping i =>
    obtain ⟨eq, _⟩ := hm.mapping hv
    simp only [rename, truth?, eq]
    exact congrArg (fun b => some !b) List.isEmpty_map
  | _ => rfl

theorem className_alike (hm : StoresAlike ρ F m m') {v : Value} (hv : v.Within F) :
    (v.rename ρ).className m' = v.className m := by
  cases v with
  | mapped x => obtain ⟨entity, _ | n⟩ := x <;> rfl
  | term id t => exact t.className_rename
  | statement id s => exact s.className_rename
  | stream x | queryType x => cases x; rfl
  | context c =>
    simp only [rename, className, (hm.context? hv).eq]
    cases m.context? c with
    | none => rfl
    | some x => exact ContextKind.className_rename x.kind
  | query q =>
    simp only [rename, className, (hm.query? hv).eq]
    cases m.query? q <;> rfl
  | _ => rfl

theorem classes_alike (hm : StoresAlike ρ F m m') {v : Value} (hv : v.Within F) :
    (v.rename ρ).classes m' = v.classes m := by
  have own := className_alike hm hv
  unfold classes
  rw [own]
  cases v with
  | context c =>
    simp only [rename, (hm.context? hv).eq]
    cases m.context? c with
    | none => rfl
    | some x =>
      have selecting : (Renamable.rename ρ x).isSelecting = x.isSelecting := x.isSelecting_rename
      simp only [Renamable.rename, Option.map_some] at selecting ⊢
      rw [selecting]
      obtain ⟨restriction, kind⟩ := x
      cases kind <;> rfl
  | stream s => cases s; rfl
  | _ => rfl

end Value

/-! ### Texts -/

theorem mapM_map_congr {α β : Type} {r : α → α} {f g : α → Option β} {xs : List α}
    (h : ∀ x ∈ xs, g (r x) = f x) : (xs.map r).mapM g = xs.mapM f := by
  induction xs with
  | nil => rfl
  | cons x xs ih =>
    rw [List.map_cons, List.mapM_cons, List.mapM_cons, h x List.mem_cons_self,
      ih fun y hy => h y (List.mem_cons_of_mem _ hy)]

theorem Value.plainWith_alike {inner inner' : Value → Option String} {v : Value}
    (h : inner' (v.rename ρ) = inner v) : (v.rename ρ).plainWith inner' = v.plainWith inner := by
  cases v with
  | member a => simp [plainWith, Attribute.rename, Attribute.key]
  | term id t =>
    simp only [rename, plainWith, t.render_rename]
    cases t.render <;> rfl
  | statement id s =>
    simp only [rename, plainWith, s.render_rename]
    cases s.render <;> rfl
  | text => rfl
  | _ => exact h

theorem ContextKind.detailsWith_alike {inner inner' : Value → Option String}
    (h : ∀ {v : Value}, v.Within F → inner' (v.rename ρ) = inner v) {k : ContextKind}
    (hk : k.Within F) : (k.rename ρ).detailsWith inner' = k.detailsWith inner := by
  cases k with
  | common | abstract => rfl
  | query b orders => simp [rename, detailsWith, SelectBody.rename]
  | subquery b parent correlated conditions =>
    simp [rename, detailsWith, SelectBody.rename, h hk.2.1]
  | delete target =>
    simp only [rename, detailsWith, Value.name?_rename, Value.plainWith_alike (h hk)]
  | update target values =>
    simp only [rename, detailsWith, Value.name?_rename, Value.plainWith_alike (h hk.1)]

theorem Value.shownTo_alike (hm : StoresAlike ρ F m m') (depth : Nat) {v : Value} (hv : v.Within F)
    (outer : List Value) :
    (v.rename ρ).shownTo m' (outer.map (Value.rename ρ)) depth = v.shownTo m outer depth := by
  induction depth generalizing v outer with
  | zero => rfl
  | succ depth ih =>
    have inner {w : Value} (hw : w.Within F) := ih hw (v :: outer)
    have again : (outer.map (rename ρ)).any (v.rename ρ).same = outer.any v.same :=
      Context.any_same_rename v outer
    have all {items : List Value} (h : ∀ w ∈ items, w.Within F) :
        (items.map (rename ρ)).mapM (shownTo m' ((v :: outer).map (rename ρ)) depth) =
          items.mapM (shownTo m (v :: outer) depth) :=
      mapM_map_congr fun w hw => inner (h w hw)
    unfold shownTo
    simp only [List.map_cons] at all inner
    rw [again]
    cases v with
    | list id items | tuple id items | row id items =>
      simp only [rename, renameAll_eq] at all ⊢
      rw [all (allWithin_iff.mp hv)]
    | mapped x => obtain ⟨entity, _ | n⟩ := x <;> rfl
    | term id t =>
      have own := className_alike hm hv
      cases t with
      | parameter => rfl
      | _ =>
        simp only [rename, Term.rename] at own ⊢
        rw [own]
    | statement id s =>
      have own := className_alike hm hv
      simp only [rename] at own ⊢
      rw [own]
    | stream s =>
      obtain ⟨id, kind, session, queryType, configurer, first, max, params, options⟩ := s
      have type := inner hv.2.1
      simp only [rename, Stream.rename] at type ⊢
      rw [type]
    | queryType t =>
      obtain ⟨id, purpose, entity⟩ := t
      have shown := inner (w := entity) hv
      simp only [rename, QueryType.rename, name?_rename] at shown ⊢
      rw [shown]
    | frame f =>
      obtain ⟨id, builder, query⟩ := f
      have shown := inner hv.1
      have shown' := inner hv.2
      simp only [rename, Frame.rename] at shown shown' ⊢
      rw [shown, shown']
    | ref r =>
      obtain ⟨eq, within⟩ := hm.ref? hv
      simp only [rename] at inner ⊢
      rw [eq]
      cases held : m.ref? r with
      | none => rfl
      | some w =>
        simp only [Renamable.rename, Option.map_some]
        rw [inner (within w held)]
    | context c =>
      obtain ⟨eq, within⟩ := hm.context? hv
      simp only [rename] at inner ⊢
      rw [eq]
      cases held : m.context? c with
      | none => rfl
      | some x =>
        have details := ContextKind.detailsWith_alike inner (within x held).kind
        simp only [Renamable.rename, Option.map_some, Context.rename, ContextKind.className_rename,
          Option.bind_eq_bind, Option.bind_some]
        rw [details]
    | query q =>
      obtain ⟨eq, within⟩ := hm.query? hv
      simp only [rename] at inner ⊢
      rw [eq]
      cases held : m.query? q with
      | none => rfl
      | some x =>
        have shown := inner (within x held).query
        simp only [Renamable.rename, Option.map_some, Executable.rename, Option.bind_eq_bind,
          Option.bind_some]
        rw [shown]
    | mapping i =>
      obtain ⟨eq, within⟩ := hm.mapping hv
      have fields := mapM_map_congr (r := Renamable.rename ρ)
        (f := fun x => do return Text.quoted x.1 ++ ": " ++
          (← shownTo m (mapping i :: outer) depth x.2))
        (g := fun x => do return Text.quoted x.1 ++ ": " ++
          (← shownTo m' ((mapping i).rename ρ :: outer.map (rename ρ)) depth x.2))
        fun x hx => congrArg (fun shown => do return Text.quoted x.1 ++ ": " ++ (← shown))
          (inner (within x hx).2)
      simp only [rename] at fields ⊢
      rw [eq]
      split
      · rfl
      · exact congrArg (· >>= _) fields
    | _ => rfl

/-! ### Statements -/

theorem Except.bind_map_congr {ε α β γ δ : Type} {f : α → β} {g : γ → δ} {x : Except ε α}
    {y : Except ε β} {k : α → Except ε γ} {l : β → Except ε δ} (h : y = x.map f)
    (hk : ∀ a, l (f a) = (k a).map g) : y >>= l = (x >>= k).map g := by
  subst h
  cases x with
  | error e => rfl
  | ok a => exact hk a

/-- What comes after something that was found, or else a failure. -/
theorem Except.found_map_congr {ε α β γ δ : Type} {x : Option α} {y : Option β} {f : α → β}
    {g : γ → δ} {e : ε} {k : α → Except ε γ} {l : β → Except ε δ} (h : y = x.map f)
    (hk : ∀ a, x = some a → l (f a) = (k a).map g) :
    (y.elim (.error e) .ok >>= l) = (x.elim (.error e) .ok >>= k).map g := by
  subst h
  cases x with
  | none => rfl
  | some a => exact hk a rfl

theorem Except.ite_map_congr {ε α β : Type} {c : Prop} [Decidable c] {f : α → β}
    {x x' : Except ε α} {y y' : Except ε β} (h : y = x.map f) (h' : y' = x'.map f) :
    (if c then y else y') = (if c then x else x').map f := by
  split
  · exact h
  · exact h'

theorem Except.mapM_map_congr {ε α β γ δ : Type} {r : α → γ} {s : β → δ} {f : α → Except ε β}
    {g : γ → Except ε δ} (h : ∀ x, g (r x) = (f x).map s) (xs : List α) :
    (xs.map r).mapM g = (xs.mapM f).map (List.map s) := by
  induction xs with
  | nil => rfl
  | cons x xs ih =>
    rw [List.map_cons, List.mapM_cons, List.mapM_cons]
    exact bind_map_congr (h x) fun a => bind_map_congr ih fun as => rfl

namespace Value

theorem selectItems_rename (v : Value) :
    (v.rename ρ).selectItems = v.selectItems.map (List.map (SelectItem.rename ρ)) := by
  have single : (v.rename ρ).selectItem.map ([·]) =
      (v.selectItem.map ([·])).map (List.map (SelectItem.rename ρ)) := by
    rw [selectItem_rename]
    cases v.selectItem <;> rfl
  cases v with
  | tuple id items | list id items =>
    simp only [rename, renameAll_eq, selectItems]
    exact Except.mapM_map_congr selectItem_rename items
  | _ => exact single

theorem groupKeys_rename (v : Value) :
    (v.rename ρ).groupKeys = v.groupKeys.map (List.map (Term.rename ρ)) := by
  have single : (v.rename ρ).sortKey.map ([·]) =
      (v.sortKey.map ([·])).map (List.map (Term.rename ρ)) := by
    rw [sortKey_rename]
    cases v.sortKey <;> rfl
  cases v with
  | mapped m => simp [groupKeys, Except.map, ColumnRef.rename]
  | member a =>
    obtain ⟨owner, _ | r⟩ := a
    · exact single
    · have condition := Attribute.condition_rename (ρ := ρ) ⟨owner, .relationship r⟩ r
      exact congrArg (fun t => Except.ok [t]) condition
  | statement id s => rfl
  | _ => exact single

theorem conditions_rename (v : Value) :
    (v.rename ρ).conditions = v.conditions.map (List.map (Term.rename ρ)) := by
  unfold conditions
  rw [isNull_rename, condition_rename]
  split
  · rfl
  · cases v.condition <;> rfl

theorem unlessNull_rename (vs : List Value) :
    unlessNull (vs.map (rename ρ)) = (unlessNull vs).map (rename ρ) := by
  rcases vs with _ | ⟨v, _ | ⟨w, vs⟩⟩
  · rfl
  · cases v <;> rfl
  · cases v <;> rfl

end Value

theorem JoinPlan.decide_alike (hm : StoresAlike ρ F m m') {j : JoinPlan} (hj : j.outer.Within F) :
    (j.rename ρ).decide m' = (j.decide m).rename ρ := by
  simp only [decide, rename, Value.truth?_alike hm hj]
  rfl

namespace SelectBody

/-- What is selected: the selection, or else the first root. -/
def chosen (b : SelectBody) : Except Error Value :=
  match b.selection, b.roots with
  | .null, [] => .error .noRoots
  | .null, root :: _ => .ok root
  | v, _ => .ok v

theorem chosen_rename (b : SelectBody) : (b.rename ρ).chosen = b.chosen.map (Value.rename ρ) := by
  obtain ⟨roots, joins, groupBy, having, distinct, selection⟩ := b
  cases selection with
  | null => cases roots <;> rfl
  | _ => rfl

/-- The SELECT of a body, clause by clause. -/
theorem statement_eq (m : Machine) (b : SelectBody) (restriction : Value) (orders : List Value)
    (joinConditions : List Term) (correlated : List Value) :
    b.statement m restriction orders joinConditions correlated = (do
      let items ← (← b.chosen).selectItems
      let roots ← b.roots.mapM Value.mappedOrExternal
      let conditions ← restriction.conditions
      let groups ← (Value.unlessNull b.groupBy).mapM Value.groupKeys
      let having ← b.having.conditions
      let distinct ← (b.distinct.truth? m).elim (.error .external) .ok
      let orders ← (Value.unlessNull orders).mapM Value.sortKey
      let correlated ← correlated.mapM Value.mappedOrExternal
      return {
        items, distinct, having, orderBy := orders
        roots := roots.map Mapped.source
        joins := b.joins.map (·.decide m)
        conditions := conditions ++ joinConditions
        groupBy := groups.flatten
        correlation :=
          if correlated.isEmpty then .automatic else .only (correlated.map Mapped.source)
        limit := none, offset := none, supplied := [] }) := by
  obtain ⟨roots, joins, groupBy, having, distinct, selection⟩ := b
  unfold statement
  dsimp only
  cases distinct.truth? m <;>
    cases selection with
    | null => cases roots <;> rfl
    | _ => rfl

end SelectBody

theorem SelectBody.statement_alike (hm : StoresAlike ρ F m m') {b : SelectBody} (hb : b.Within F)
    (restriction : Value) (orders : List Value) (joinConditions : List Term)
    (correlated : List Value) :
    (b.rename ρ).statement m' (restriction.rename ρ) (orders.map (Value.rename ρ))
        (joinConditions.map (Term.rename ρ)) (correlated.map (Value.rename ρ)) =
      (b.statement m restriction orders joinConditions correlated).map (Select.rename ρ) := by
  rw [statement_eq, statement_eq]
  refine Except.bind_map_congr b.chosen_rename fun selection => ?_
  refine Except.bind_map_congr selection.selectItems_rename fun items => ?_
  refine Except.bind_map_congr (Except.mapM_map_congr Value.mappedOrExternal_rename _) fun roots => ?_
  refine Except.bind_map_congr restriction.conditions_rename fun conditions => ?_
  refine Except.bind_map_congr (f := List.map (List.map (Term.rename ρ))) ?_ fun groups => ?_
  · simp only [rename, Value.unlessNull_rename]
    exact Except.mapM_map_congr Value.groupKeys_rename _
  refine Except.bind_map_congr b.having.conditions_rename fun having => ?_
  refine Except.bind_map_congr (f := id) ?_ fun distinct => ?_
  · simp only [rename, Value.truth?_alike hm hb.distinct]
    cases b.distinct.truth? m <;> rfl
  refine Except.bind_map_congr (f := List.map (Term.rename ρ)) ?_ fun keys => ?_
  · rw [Value.unlessNull_rename]
    exact Except.mapM_map_congr Value.sortKey_rename _
  refine Except.bind_map_congr (Except.mapM_map_congr Value.mappedOrExternal_rename _) fun outer => ?_
  have joins : b.joins.map ((JoinPlan.rename ρ · |>.decide m')) =
      (b.joins.map (·.decide m)).map (Join.rename ρ) := by
    rw [List.map_map]
    exact List.map_congr_left fun j hj => j.decide_alike hm (hb.joins j hj)
  simp only [rename, List.map_map, Function.comp_def] at joins ⊢
  cases outer <;>
    simp [pure, Except.pure, Except.map, joins, List.map_flatten, Correlation.rename]

namespace Context

theorem nested_alike (hm : StoresAlike ρ F m m') {c : Context} (hc : c.Within F) :
    (c.rename ρ).nested m' = (c.nested m).map (Select.rename ρ) := by
  obtain ⟨restriction, kind⟩ := c
  cases kind with
  | subquery b parent correlated conditions =>
    exact b.statement_alike hm hc.kind.1 restriction [] conditions correlated
  | _ => rfl

theorem assignments_rename (e : Entity) (values : List (String × Value)) :
    assignments e (Value.renameEntries ρ values) =
      (assignments e values).map (List.map (Assignment.rename ρ)) := by
  unfold assignments
  have refused : (Value.renameEntries ρ values).any (!·.2.isAssignable) =
      values.any (!·.2.isAssignable) := by simp [Value.renameEntries, Function.comp_def]
  rw [refused]
  split
  · rfl
  · simp [Value.renameEntries, Except.map, List.filterMap_map, List.map_filterMap, Function.comp_def,
      pure, Except.pure]

theorem statement_alike (hm : StoresAlike ρ F m m') {c : Context} (hc : c.Within F) :
    (c.rename ρ).statement m' = (c.statement m).map (Statement.rename ρ) := by
  have nested := nested_alike hm hc
  obtain ⟨restriction, kind⟩ := c
  cases kind with
  | common | abstract => rfl
  | query b orders =>
    simp only [rename, ContextKind.rename, statement]
    have := b.statement_alike hm hc.kind.1 restriction orders [] []
    simp only [List.map_nil] at this
    rw [this]
    cases b.statement m restriction orders [] [] <;> simp [Except.map]
  | subquery b parent correlated conditions =>
    simp only [rename, ContextKind.rename, statement] at nested ⊢
    rw [nested]
    cases Context.nested m ⟨restriction, .subquery b parent correlated conditions⟩ <;>
      simp [Except.map]
  | delete target =>
    refine Except.bind_map_congr target.mappedOrExternal_rename fun t => ?_
    refine Except.bind_map_congr restriction.conditions_rename fun conditions => ?_
    simp [Except.map, pure, Except.pure]
  | update target values =>
    simp only [rename, ContextKind.rename, statement, List.isEmpty_map, Value.renameEntries]
    split
    · rfl
    refine Except.bind_map_congr target.mappedOrExternal_rename fun t => ?_
    refine Except.bind_map_congr restriction.conditions_rename fun conditions => ?_
    refine Except.bind_map_congr (assignments_rename t.entity values) fun assigned => ?_
    simp [Except.map, pure, Except.pure]

end Context

namespace Executable

theorem withParams_alike (hm : StoresAlike ρ F m m') {q : Executable} (hq : q.Within F)
    (s : Statement) :
    (q.rename ρ).withParams m' (s.rename ρ) = (q.withParams m s).map (Statement.rename ρ) := by
  have fields : m'.mapping (q.rename ρ).params = Value.renameEntries ρ (m.mapping q.params) :=
    (hm.mapping hq.params).eq
  have refused : (Value.renameEntries ρ (m.mapping q.params)).any (refusedNames.contains ·.1) =
      (m.mapping q.params).any (refusedNames.contains ·.1) := by
    simp [Value.renameEntries, Function.comp_def]
  have empty : (Value.renameEntries ρ (m.mapping q.params)).isEmpty = (m.mapping q.params).isEmpty :=
    List.isEmpty_map
  unfold withParams
  simp only [fields, refused, empty]
  split
  · rfl
  split
  · rfl
  cases s with
  | select s =>
    obtain ⟨items⟩ := s
    simp [Except.map, Value.renameEntries, Function.comp_def]
  | _ => rfl

theorem withBounds_rename (q : Executable) {next next' : Nat} (limit : ρ.number (next + 1) = next' + 1)
    (offset : ρ.number next = next') (s : Statement) :
    (q.rename ρ).withBounds next' (s.rename ρ) = (q.withBounds next s).map (Statement.rename ρ) := by
  unfold withBounds
  refine Except.ite_map_congr rfl ?_
  cases s with
  | select s =>
    obtain ⟨items⟩ := s
    have bound {id id' : Nat} (same : ρ.number id = id') (b : Bound) (old : Option RowBound) :
        (if b.isSet then b.toInt.map fun n => some (RowBound.mk id' n)
          else .ok (old.map (RowBound.rename ρ))) =
        (if b.isSet then b.toInt.map fun n => some (RowBound.mk id n) else .ok old).map
          (Option.map (RowBound.rename ρ)) := by
      subst same
      split
      · cases b.toInt <;> rfl
      · rfl
    refine Except.bind_map_congr (bound offset _ _) fun first => ?_
    refine Except.bind_map_congr (bound limit _ _) fun last => ?_
    simp [pure, Except.pure, Except.map]
  | _ => rfl

/-- A bare statement gets its parameters, and that of a search its row bounds. -/
theorem supplied_alike (hm : StoresAlike ρ F m m') {next next' : Nat}
    (limit : ρ.number (next + 1) = next' + 1) (offset : ρ.number next = next')
    {q : Executable} (hq : q.Within F) (bare : Statement) :
    (do
      let s ← (q.rename ρ).withParams m' (bare.rename ρ)
      if q.kind matches .typed then (q.rename ρ).withBounds next' s else .ok s) =
    (do
      let s ← q.withParams m bare
      if q.kind matches .typed then q.withBounds next s else .ok s).map (Statement.rename ρ) :=
  Except.bind_map_congr (withParams_alike hm hq bare) fun s =>
    Except.ite_map_congr (q.withBounds_rename limit offset s) rfl

theorem statementTo_alike (hm : StoresAlike ρ F m m') {next next' : Nat}
    (limit : ρ.number (next + 1) = next' + 1) (offset : ρ.number next = next') (depth : Nat)
    {q : Executable} (hq : q.Within F) :
    (q.rename ρ).statementTo m' next' depth =
      (q.statementTo m next depth).map (Statement.rename ρ) := by
  induction depth generalizing q with
  | zero => rfl
  | succ depth ih =>
    unfold statementTo
    refine Except.ite_map_congr rfl ?_
    have supplied := supplied_alike hm limit offset hq
    obtain ⟨kind, session, query, params, options, first, max⟩ := q
    cases query with
    | context c =>
      obtain ⟨eq, within⟩ := hm.context? hq.query
      exact Except.found_map_congr eq fun x found =>
        Except.bind_map_congr (Context.statement_alike hm (within x found)) supplied
    | query inner =>
      obtain ⟨eq, within⟩ := hm.query? hq.query
      exact Except.found_map_congr eq fun x found =>
        Except.bind_map_congr (ih (within x found)) supplied
    | _ => rfl

theorem statement_alike (hm : StoresAlike ρ F m m') {next next' : Nat}
    (limit : ρ.number (next + 1) = next' + 1) (offset : ρ.number next = next') {q : Executable}
    (hq : q.Within F) :
    (q.rename ρ).statement m' next' = (q.statement m next).map (Statement.rename ρ) :=
  statementTo_alike hm limit offset 1000 hq

end Executable

end FluentQuery
