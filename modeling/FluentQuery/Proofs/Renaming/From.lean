import FluentQuery.Proofs.Renaming.Syntax
import Mathlib.Data.List.Basic

/-! A renamed statement reads the renamed sources: its FROM list and what a subquery keeps of it
are those of the statement, renamed. -/

namespace FluentQuery

/-! ### Lists under an injection -/

section Injected

variable {α β γ δ : Type} [BEq α] [LawfulBEq α] [BEq β] [LawfulBEq β] {f : α → β}

theorem beq_of_injective (hf : Function.Injective f) (x y : α) : (f x == f y) = (x == y) := by
  rw [Bool.eq_iff_iff, beq_iff_eq, beq_iff_eq, hf.eq_iff]

theorem contains_map (hf : Function.Injective f) (xs : List α) (x : α) :
    (xs.map f).contains (f x) = xs.contains x := by
  rw [Bool.eq_iff_iff, List.contains_iff_mem, List.contains_iff_mem, List.mem_map_of_injective hf]

theorem eraseDups_map (hf : Function.Injective f) :
    ∀ xs : List α, (xs.map f).eraseDups = xs.eraseDups.map f
  | [] => rfl
  | x :: xs => by
    have other : (fun y => !y == f x) ∘ f = fun y => !y == x :=
      funext fun y => congrArg (!·) (beq_of_injective hf y x)
    rw [List.map_cons, List.eraseDups_cons, List.eraseDups_cons, List.filter_map, List.map_cons,
      other, eraseDups_map hf (xs.filter fun y => !y == x)]
termination_by xs => xs.length
decreasing_by exact Nat.lt_succ_of_le (List.length_filter_le _ xs)

theorem lookup_map (hf : Function.Injective f) (g : γ → δ) (xs : List (α × γ)) (x : α) :
    (xs.map fun p => (f p.1, g p.2)).lookup (f x) = (xs.lookup x).map g := by
  induction xs with
  | nil => rfl
  | cons p xs ih =>
    obtain ⟨k, v⟩ := p
    rw [List.map_cons, List.lookup_cons, List.lookup_cons, beq_of_injective hf, ih]
    cases x == k <;> rfl

/-- Values alone may change. -/
theorem lookup_map_values (g : γ → δ) (xs : List (α × γ)) (x : α) :
    (xs.map fun p => (p.1, g p.2)).lookup x = (xs.lookup x).map g :=
  lookup_map Function.injective_id g xs x

end Injected

variable {ρ : Renaming}

namespace Sql

/-! ### Elements of a FROM list -/

def Equality.rename (ρ : Renaming) (e : Equality) : Equality := ⟨e.left.rename ρ, e.right.rename ρ⟩

def FromItem.rename (ρ : Renaming) : FromItem → FromItem
  | source s => source (s.rename ρ)
  | join left right on outer => join (left.rename ρ) (right.rename ρ) (on.rename ρ) outer

@[simp] theorem Equality.rename_inj {a b : Equality} : a.rename ρ = b.rename ρ ↔ a = b := by
  cases a
  cases b
  simp [rename]

namespace FromItem

@[simp] theorem rename_inj {a b : FromItem} : a.rename ρ = b.rename ρ ↔ a = b := by
  induction a generalizing b with
  | source s => cases b <;> simp [rename]
  | join left right on outer ihl ihr => cases b <;> simp [rename, ihl, ihr]

theorem rename_injective (ρ : Renaming) : Function.Injective (rename ρ) := fun _ _ => rename_inj.mp

@[simp] theorem sources_rename (item : FromItem) :
    (item.rename ρ).sources = item.sources.map (Source.rename ρ) := by
  induction item with
  | source s => rfl
  | join left right on outer ihl ihr => simp [rename, sources, ihl, ihr]

@[simp] theorem hidden_rename (item : FromItem) :
    (item.rename ρ).hidden = item.hidden.map (Source.rename ρ) := by
  cases item with
  | source s => rfl
  | join left right on outer => exact sources_rename (.join left right on outer)

@[simp] theorem reads_rename (item : FromItem) (s : Source) :
    (item.rename ρ).reads (s.rename ρ) = item.reads s := by
  rw [reads, sources_rename, contains_map (Source.rename_injective ρ), reads]

@[simp] theorem stems_rename (base s : Source) :
    stems (base.rename ρ) (s.rename ρ) = stems base s := by
  have plain : ((base.rename ρ).alias? == none) = (base.alias? == none) := by
    obtain ⟨table, _ | n⟩ := base <;> rfl
  rw [stems, beq_of_injective (Source.rename_injective ρ), plain]
  rfl

@[simp] theorem standIn_rename (item : FromItem) (base : Source) :
    (item.rename ρ).standIn (base.rename ρ) = (item.standIn base).rename ρ := by
  have found : ((item.sources.map (Source.rename ρ)).find? (stems (base.rename ρ))) =
      (item.sources.find? (stems base)).map (Source.rename ρ) := by
    have alike : stems (base.rename ρ) ∘ Source.rename ρ = stems base :=
      funext fun s => stems_rename base s
    rw [List.find?_map, alike]
  unfold standIn
  rw [reads_rename, sources_rename, found]
  split
  · rfl
  · cases item.sources.find? (stems base) <;> rfl

@[simp] theorem extend_rename (item : FromItem) (owner : Source) (j : Join) (pairing : Nat) :
    (item.rename ρ).extend (owner.rename ρ) (j.rename ρ) pairing =
      (item.extend owner j pairing).rename ρ := by
  have target : (j.rename ρ).target.source = j.target.source.rename ρ := Mapped.rename_source _
  have outer : (j.rename ρ).outer = j.outer := rfl
  have relationship : (j.rename ρ).relationship = j.relationship := rfl
  unfold extend
  simp only [target, outer, relationship]
  split
  · rfl
  · rfl
  · split <;> rfl

end FromItem

/-! ### Joins -/

@[simp] theorem joinPositions_rename (items : List FromItem) (owner : Source) :
    joinPositions (items.map (FromItem.rename ρ)) (owner.rename ρ) = joinPositions items owner := by
  have positions (p q : FromItem → Bool) (h : ∀ item, q (item.rename ρ) = p item) :
      (((items.map (FromItem.rename ρ)).zipIdx.filter fun x => q x.1).map Prod.snd) =
        (items.zipIdx.filter fun x => p x.1).map Prod.snd := by
    rw [List.zipIdx_map, List.filter_map, List.map_map]
    simp [Function.comp_def, h]
  have loose := positions (fun item => item.sources.any (FromItem.stems owner))
    (fun item => item.sources.any (FromItem.stems (owner.rename ρ))) (by simp [Function.comp_def])
  have own := positions (·.reads owner) (·.reads (owner.rename ρ)) (by simp)
  simp only [joinPositions, loose, own]

theorem modify_map {α β : Type} (f : α → β) {g : α → α} {h : β → β} (hg : ∀ x, h (f x) = f (g x))
    (xs : List α) (i : Nat) : (xs.map f).modify i h = (xs.modify i g).map f := by
  induction xs generalizing i with
  | nil => simp
  | cons x xs ih => cases i <;> simp [hg, ih]

@[simp] theorem addJoin_rename (items : List FromItem) (j : Join) (pairing : Nat) :
    addJoin (items.map (FromItem.rename ρ)) (j.rename ρ) pairing =
      (addJoin items j pairing).map (List.map (FromItem.rename ρ)) := by
  have owner : (j.rename ρ).owner.source = j.owner.source.rename ρ := Mapped.rename_source _
  unfold addJoin
  simp only [owner, joinPositions_rename]
  split
  · have start := FromItem.extend_rename (ρ := ρ) (.source j.owner.source) j.owner.source j pairing
    simpa [FromItem.rename] using start
  · rw [Option.map_some, modify_map _ fun item => ?_]
    simp
  · rfl

@[simp] theorem addJoins_rename (pairing : Nat) (items : List FromItem) (js : List Join) :
    addJoins pairing (items.map (FromItem.rename ρ)) (js.map (Join.rename ρ)) =
      (addJoins pairing items js).map fun x => (x.1.map (FromItem.rename ρ), x.2) := by
  induction js generalizing items pairing with
  | nil => rfl
  | cons j js ih =>
    simp only [List.map_cons, addJoins, addJoin_rename]
    cases addJoin items j pairing with
    | none => rfl
    | some items => exact ih _ _

/-! ### What expressions mention -/

mutual

theorem Term.sources_rename (t : Term) : (t.rename ρ).sources = t.sources.map (Source.rename ρ) := by
  cases t with
  | compare op reflexive left right =>
    simp [Term.sources, left.sources_rename, right.sources_rename]
  | arithmetic op type ts | group op ts | function name type ts =>
    simpa [Term.sources] using Term.sourcesOfAll_rename ts
  | condition negated key t | negation type t | extract field t | cast type key t | distinct t
  | among negated t values | sorted d t => simpa [Term.sources] using t.sources_rename
  | _ => rfl

theorem Term.sourcesOfAll_rename (ts : List Term) :
    Term.sourcesOfAll (ts.map (Term.rename ρ)) = (Term.sourcesOfAll ts).map (Source.rename ρ) := by
  cases ts with
  | nil => rfl
  | cons t ts => simp [Term.sourcesOfAll, t.sources_rename, Term.sourcesOfAll_rename ts]

end

attribute [simp] Term.sources_rename Term.sourcesOfAll_rename

@[simp] theorem Assignment.sources_rename (a : Assignment) :
    (a.rename ρ).sources = a.sources.map (Source.rename ρ) := by
  cases a with
  | plain => rfl
  | computed column t => exact t.sources_rename

namespace Term

@[simp] theorem operator?_rename (t : Term) : (t.rename ρ).operator? = t.operator? := by
  cases t with
  | group op ts => cases ts <;> simp [operator?]
  | _ => rfl

@[simp] theorem enclosedIn_rename (outer : Operator) (t : Term) :
    (t.rename ρ).enclosedIn outer = t.enclosedIn outer := by
  simp [enclosedIn]

@[simp] theorem enclosure_rename (outer : Operator) (t : Term) :
    (t.rename ρ).enclosure outer = t.enclosure outer := by
  simp [enclosure]

end Term

/-- A depth with the renamed source. -/
def deepened (ρ : Renaming) (x : Nat × Source) : Nat × Source := (x.1, x.2.rename ρ)

mutual

theorem Term.depths_rename (depth : Nat) (t : Term) :
    (t.rename ρ).depths depth = (t.depths depth).map (deepened ρ) := by
  cases t with
  | compare op reflexive left right =>
    simp [Term.depths, left.depths_rename, right.depths_rename]
  | arithmetic op type ts | group op ts | function name type ts =>
    simpa [Term.depths] using Term.operandDepths_rename _ _ ts
  | condition negated key t | negation type t | extract field t | cast type key t | distinct t
  | among negated t values | sorted d t => simpa [Term.depths] using t.depths_rename _
  | _ => rfl

theorem Term.operandDepths_rename (depth : Nat) (outer : Operator) (ts : List Term) :
    Term.operandDepths depth outer (ts.map (Term.rename ρ)) =
      (Term.operandDepths depth outer ts).map (deepened ρ) := by
  cases ts with
  | nil => rfl
  | cons t ts => simp [Term.operandDepths, t.depths_rename, Term.operandDepths_rename _ _ ts]

end

theorem nearestSource_rename (xs : List (Nat × Source)) :
    nearestSource (xs.map (deepened ρ)) = (nearestSource xs).map (Source.rename ρ) := by
  induction xs with
  | nil => rfl
  | cons x xs ih =>
    obtain ⟨d, s⟩ := x
    have nearer : (xs.map (deepened ρ)).find? (·.1 < d) =
        (xs.find? (·.1 < d)).map (deepened ρ) := by
      rw [List.find?_map]
      rfl
    simp only [List.map_cons, deepened, nearestSource]
    simp only [nearer, ih]
    cases xs.find? (·.1 < d) <;> rfl

mutual

theorem Term.carriesEntity_rename (t : Term) : (t.rename ρ).carriesEntity = t.carriesEntity := by
  cases t with
  | compare op reflexive left right =>
    simp [Term.carriesEntity, left.carriesEntity_rename, right.carriesEntity_rename]
  | arithmetic op type ts | function name type ts =>
    simpa [Term.carriesEntity] using Term.anyCarriesEntity_rename ts
  | negation type t | cast type key t | distinct t | among negated t values | sorted d t =>
    simpa [Term.carriesEntity] using t.carriesEntity_rename
  | nonempty s | scalar s => simpa [Term.carriesEntity] using s.carriesEntity_rename
  | whole s => simpa [Term.carriesEntity] using s.carriesEntity_rename
  | _ => rfl

theorem Term.anyCarriesEntity_rename (ts : List Term) :
    Term.anyCarriesEntity (ts.map (Term.rename ρ)) = Term.anyCarriesEntity ts := by
  cases ts with
  | nil => rfl
  | cons t ts =>
    simp [Term.anyCarriesEntity, t.carriesEntity_rename, Term.anyCarriesEntity_rename ts]

theorem SelectItem.anyCarriesEntity_rename (items : List SelectItem) :
    SelectItem.anyCarriesEntity (items.map (SelectItem.rename ρ)) =
      SelectItem.anyCarriesEntity items := by
  cases items with
  | nil => rfl
  | cons item items =>
    have rest := SelectItem.anyCarriesEntity_rename items
    cases item with
    | mapped m => rfl
    | verbatim text => simpa [SelectItem.anyCarriesEntity] using rest
    | expression key t =>
      have own := t.carriesEntity_rename
      cases key <;> simp [SelectItem.anyCarriesEntity, ItemKey.rename, own, rest]

theorem Select.carriesEntity_rename (s : Select) :
    (s.rename ρ).carriesEntity = s.carriesEntity := by
  obtain ⟨items, distinct, roots, joins, conditions, groupBy, having, orderBy, correlation, limit,
    offset, supplied⟩ := s
  have items' := SelectItem.anyCarriesEntity_rename items
  have conditions' := Term.anyCarriesEntity_rename conditions
  have groupBy' := Term.anyCarriesEntity_rename groupBy
  have orderBy' := Term.anyCarriesEntity_rename orderBy
  cases correlation <;>
    simp [Select.carriesEntity, Correlation.rename, items', conditions', groupBy', orderBy']

theorem Statement.carriesEntity_rename (s : Statement) :
    (s.rename ρ).carriesEntity = s.carriesEntity := by
  cases s with
  | select s => exact s.carriesEntity_rename
  | _ => rfl

end

namespace SelectItem

@[simp] theorem sources_rename (item : SelectItem) :
    (item.rename ρ).sources = item.sources.map (Source.rename ρ) := by
  cases item <;> simp [sources]

@[simp] theorem principal?_rename (item : SelectItem) :
    (item.rename ρ).principal? = item.principal?.map (Source.rename ρ) := by
  cases item with
  | mapped m => simp [principal?]
  | verbatim text => rfl
  | expression key t =>
    have nearest : nearestSource ((t.rename ρ).depths 0) =
        (nearestSource (t.depths 0)).map (Source.rename ρ) := by
      rw [t.depths_rename, nearestSource_rename]
    cases key <;> simp [principal?, ItemKey.rename, nearest, Attribute.rename]

end SelectItem

/-! ### The FROM list -/

@[simp] theorem distinctItems_rename (items : List FromItem) :
    distinctItems (items.map (FromItem.rename ρ)) =
      (distinctItems items).map (FromItem.rename ρ) := by
  have hidden : (items.eraseDups.map (FromItem.rename ρ)).flatMap FromItem.hidden =
      (items.eraseDups.flatMap FromItem.hidden).map (Source.rename ρ) := by
    simp [List.flatMap_map, List.map_flatMap]
  unfold distinctItems
  dsimp only
  rw [eraseDups_map (FromItem.rename_injective ρ), hidden, List.filter_map]
  congr 1
  refine List.filter_congr fun item _ => ?_
  cases item with
  | source s => exact congrArg (!·) (contains_map (Source.rename_injective ρ) _ s)
  | join => rfl

theorem map_source_rename (xs : List Source) :
    (xs.map (Source.rename ρ)).map FromItem.source =
      (xs.map FromItem.source).map (FromItem.rename ρ) := by
  simp [FromItem.rename]

@[simp] theorem Select.fromItems_rename (s : Select) (pairing : Nat) :
    (s.rename ρ).fromItems pairing =
      (s.fromItems pairing).map fun x => (x.1.map (FromItem.rename ρ), x.2) := by
  have carries := s.carriesEntity_rename (ρ := ρ)
  obtain ⟨items, distinct, roots, joins, conditions, groupBy, having, orderBy, correlation, limit,
    offset, supplied⟩ := s
  have explicit := addJoins_rename (ρ := ρ) pairing (roots.map FromItem.source) joins
  rw [← map_source_rename] at explicit
  have implicit : (items.map (SelectItem.rename ρ)).filterMap SelectItem.principal? =
      (items.filterMap SelectItem.principal?).map (Source.rename ρ) := by
    simp [List.filterMap_map, List.map_filterMap]
  have mentioned : (items.map (SelectItem.rename ρ)).flatMap SelectItem.sources =
      (items.flatMap SelectItem.sources).map (Source.rename ρ) := by
    simp [List.flatMap_map, List.map_flatMap]
  unfold fromItems
  simp only [carries]
  simp only [Select.rename, SelectItem.renameAll_eq, Term.renameAll_eq, explicit, implicit,
    mentioned, Term.sourcesOfAll_rename]
  rcases addJoins pairing (roots.map FromItem.source) joins with _ | ⟨found, pairing'⟩
  · rfl
  · simp only [Option.map_some, Option.bind_eq_bind, Option.bind_some, Option.pure_def,
      Option.some.injEq, Prod.mk.injEq, and_true, ← distinctItems_rename, List.map_append,
      map_source_rename, List.isEmpty_map]
    congr 2
    split
    · split
      · exact map_source_rename _
      · rfl
    · rfl

@[simp] theorem providedColumns_rename (items : List FromItem) :
    providedColumns (items.map (FromItem.rename ρ)) =
      (providedColumns items).map (ColumnRef.rename ρ) := by
  simp only [providedColumns, List.map_flatMap, List.flatMap_map, FromItem.sources_rename,
    List.flatMap_assoc]
  refine List.flatMap_congr fun item _ => List.flatMap_congr fun s _ => ?_
  simp [ColumnRef.rename]

theorem someNonempty_map {α β : Type} (f : α → β) (xs : List α) :
    (if (xs.map f).isEmpty then none else some (xs.map f)) =
      (if xs.isEmpty then none else some xs).map (List.map f) := by
  cases xs <;> rfl

namespace Scope

def rename (ρ : Renaming) (scope : Scope) : Scope :=
  ⟨scope.nearest.map (Source.rename ρ), scope.every.map (Source.rename ρ),
    scope.names.map (List.map fun x => (x.1, x.2.rename ρ))⟩

@[simp] theorem top_rename : top.rename ρ = top := rfl

@[simp] theorem nest_rename (scope : Scope) (sources : List Source) (names : List (String × Term)) :
    (scope.rename ρ).nest (sources.map (Source.rename ρ)) (names.map fun x => (x.1, x.2.rename ρ)) =
      (scope.nest sources names).rename ρ := by
  simp [nest, rename]

@[simp] theorem keep?_rename (scope : Scope) (correlation : Correlation) (items : List FromItem) :
    (scope.rename ρ).keep? (correlation.rename ρ) (items.map (FromItem.rename ρ)) =
      (scope.keep? correlation items).map (List.map (FromItem.rename ρ)) := by
  have without (p q : Source → Bool) (h : ∀ s, q (s.rename ρ) = p s) :
      ((items.map (FromItem.rename ρ)).filter fun
        | .source s => !q s
        | .join .. => true) = (items.filter fun
        | .source s => !p s
        | .join .. => true).map (FromItem.rename ρ) := by
    rw [List.filter_map]
    refine congrArg _ (List.filter_congr fun item _ => ?_)
    cases item with
    | source s => exact congrArg (!·) (h s)
    | join => rfl
  have reads (xs : List Source) (s : Source) :
      (xs.map (Source.rename ρ)).contains (s.rename ρ) = xs.contains s :=
    contains_map (Source.rename_injective ρ) xs s
  cases correlation with
  | only roots =>
    refine congrArg some (without _ _ fun s => ?_)
    rw [reads]
    exact congrArg _ (reads _ _)
  | allBut own =>
    refine congrArg some (without _ _ fun s => ?_)
    rw [reads]
    exact congrArg (· && _) (reads _ _)
  | automatic =>
    have kept := without scope.nearest.contains (scope.nearest.map (Source.rename ρ)).contains
      (reads _)
    simp only [keep?, Correlation.rename, rename, List.isEmpty_map, List.length_map]
    split
    · exact (congrArg (fun xs => if xs.isEmpty then none else some xs) kept).trans
        (someNonempty_map _ _)
    · rfl

end Scope

end Sql

end FluentQuery
