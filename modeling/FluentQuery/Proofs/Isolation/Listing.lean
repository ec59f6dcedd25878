import Mathlib.Data.List.Basic
import FluentQuery.Sql.From

/-! What the FROM list of a SELECT reads: its own roots and join targets, with the aliases
of the pairing tables between them, and whatever else it mentions or joins from. Correlation
leaves some of it to the statements around. -/

namespace FluentQuery.Sql

/-- What a join brings into a FROM list: its target, behind an alias of the pairing table if it goes
through one. -/
def Join.brings (j : Join) (pairing : ℕ) : List Source :=
  match j.relationship.link with
  | .through table _ _ => [⟨table, some (.joined pairing)⟩, j.target.source]
  | .toOne _ | .toMany _ => [j.target.source]

theorem Join.target_mem_brings (j : Join) (pairing : ℕ) : j.target.source ∈ j.brings pairing := by
  unfold Join.brings
  split <;> simp

/-- What joins bring, the aliases of pairing tables numbered from `pairing` on. -/
def brought (pairing : ℕ) : List Join → List Source
  | [] => []
  | j :: js => j.brings pairing ++ brought (pairing + 1) js

/-- The owners that joins have to list themselves, for nothing listed before stands for them. -/
def strays (pairing : ℕ) (listed : List Source) : List Join → List Source
  | [] => []
  | j :: js =>
    if listed.any (FromItem.stems j.owner.source) then
      strays (pairing + 1) (listed ++ j.brings pairing) js
    else j.owner.source :: strays (pairing + 1) (listed ++ j.owner.source :: j.brings pairing) js

theorem strays_congr {pairing : ℕ} {listed listed' : List Source}
    (h : ∀ x, x ∈ listed ↔ x ∈ listed') (js : List Join) :
    strays pairing listed js = strays pairing listed' js := by
  induction js generalizing pairing listed listed' with
  | nil => rfl
  | cons j js ih =>
    have same : listed.any (FromItem.stems j.owner.source) =
        listed'.any (FromItem.stems j.owner.source) := by
      rw [Bool.eq_iff_iff, List.any_eq_true, List.any_eq_true]
      exact exists_congr fun x => and_congr_left fun _ => h x
    have more (xs : List Source) : strays (pairing + 1) (listed ++ xs) js =
        strays (pairing + 1) (listed' ++ xs) js := ih fun x => by simp [h]
    unfold strays
    rw [same, more, more]

namespace FromItem

/-! ### Elements of a FROM list -/

@[simp] theorem sources_extend (item : FromItem) (owner : Source) (j : Join) (pairing : ℕ) :
    (item.extend owner j pairing).sources = item.sources ++ j.brings pairing := by
  unfold extend Join.brings
  cases j.relationship.link with
  | toOne c => rfl
  | toMany c => rfl
  | through table left right =>
    dsimp only
    split
    · rfl
    · simp [sources]

/-- A join takes all that it reads out of the list. -/
theorem hidden_extend (item : FromItem) (owner : Source) (j : Join) (pairing : ℕ) :
    (item.extend owner j pairing).hidden = item.sources ++ j.brings pairing := by
  rw [← sources_extend item owner j pairing]
  unfold extend
  cases j.relationship.link with
  | toOne c => rfl
  | toMany c => rfl
  | through table left right =>
    dsimp only
    split <;> rfl

theorem hidden_subset_sources (item : FromItem) : item.hidden ⊆ item.sources := by
  cases item with
  | source s => exact List.nil_subset _
  | join left right on outer => exact List.Subset.refl _

end FromItem

/-! ### Joins -/

section Joins

variable {items items' : List FromItem} {owner x : Source} {j : Join} {pairing : ℕ}

theorem mem_positions {p : FromItem → Bool} {i : ℕ} :
    i ∈ (items.zipIdx.filter fun y => p y.1).map Prod.snd ↔
      ∃ item, items[i]? = some item ∧ p item = true := by
  simp only [List.mem_map, List.mem_filter, Prod.exists, List.mk_mem_zipIdx_iff_getElem?]
  constructor
  · rintro ⟨item, k, ⟨hk, hp⟩, rfl⟩
    exact ⟨item, hk, hp⟩
  · rintro ⟨item, hi, hp⟩
    exact ⟨item, i, ⟨hi, hp⟩, rfl⟩

theorem exists_of_mem_joinPositions {i : ℕ} (h : i ∈ joinPositions items owner) :
    ∃ item, items[i]? = some item := by
  unfold joinPositions at h
  dsimp only at h
  split at h
  · obtain ⟨item, hi, _⟩ := (mem_positions (p := fun item => item.reads owner)).mp h
    exact ⟨item, hi⟩
  · obtain ⟨item, hi, _⟩ := (mem_positions (p := fun item => item.sources.any _)).mp h
    exact ⟨item, hi⟩

/-- A join has no position exactly if nothing listed stands for its owner. -/
theorem joinPositions_eq_nil : joinPositions items owner = [] ↔
    (items.flatMap FromItem.sources).any (FromItem.stems owner) = false := by
  have loose_nil : (items.zipIdx.filter fun y => y.1.sources.any (FromItem.stems owner)).map
      Prod.snd = [] ↔ (items.flatMap FromItem.sources).any (FromItem.stems owner) = false := by
    rw [List.eq_nil_iff_forall_not_mem, List.any_flatMap, List.any_eq_false]
    simp only [mem_positions (p := fun item => item.sources.any (FromItem.stems owner)),
      not_exists, not_and]
    constructor
    · intro h item hi
      obtain ⟨i, hi⟩ := List.mem_iff_getElem?.mp hi
      exact h i item hi
    · intro h i item hi
      exact h item (List.mem_of_getElem? hi)
  rw [← loose_nil]
  unfold joinPositions
  dsimp only
  split
  · rename_i several
    simp only [Bool.and_eq_true, decide_eq_true_eq, Bool.not_eq_true', List.isEmpty_eq_false_iff]
      at several
    constructor
    · intro h
      exact absurd h several.2
    · intro h
      rw [h] at several
      exact absurd several.1 (by simp)
  · exact Iff.rfl

/-- Hanging a join on an element adds what the join brings to what is read, and takes all that the
element reads out of the list. -/
theorem mem_modify_extend {i : ℕ} {item : FromItem} (hi : items[i]? = some item)
    (extended : List Source) (f : FromItem → FromItem)
    (sources : (f item).sources = item.sources ++ extended)
    (hidden : (f item).hidden = item.sources ++ extended) :
    (∀ x, x ∈ (items.modify i f).flatMap FromItem.sources ↔
        x ∈ items.flatMap FromItem.sources ∨ x ∈ extended) ∧
      (∀ x ∈ items.flatMap FromItem.hidden, x ∈ (items.modify i f).flatMap FromItem.hidden) ∧
      ∀ x ∈ extended, x ∈ (items.modify i f).flatMap FromItem.hidden := by
  obtain ⟨before, behind, rfl, rfl⟩ : ∃ before behind, items = before ++ item :: behind ∧
      before.length = i := by
    obtain ⟨hlt, rfl⟩ := List.getElem?_eq_some_iff.mp hi
    exact ⟨items.take i, items.drop (i + 1), by simp, by simp; omega⟩
  have modified : (before ++ item :: behind).modify before.length f =
      before ++ f item :: behind := by
    rw [List.modify_eq_take_cons_drop (by simp)]
    simp
  have within := FromItem.hidden_subset_sources item
  simp only [modified, List.flatMap_append, List.flatMap_cons, sources, hidden, List.mem_append]
  refine ⟨fun x => by tauto, fun x hx => ?_, fun x hx => by tauto⟩
  rcases hx with hx | hx | hx
  · exact .inl hx
  · exact .inr (.inl (.inl (within hx)))
  · exact .inr (.inr hx)

/-- Adding a join adds what it brings to what is read, and its owner if that is a stray. -/
theorem mem_addJoin (h : addJoin items j pairing = some items') :
    (∀ x, x ∈ items'.flatMap FromItem.sources ↔ x ∈ items.flatMap FromItem.sources ∨
      x ∈ j.brings pairing ∨ x = j.owner.source ∧
        (items.flatMap FromItem.sources).any (FromItem.stems j.owner.source) = false) ∧
      (∀ x ∈ items.flatMap FromItem.hidden, x ∈ items'.flatMap FromItem.hidden) ∧
      (∀ x ∈ j.brings pairing, x ∈ items'.flatMap FromItem.hidden) ∧
      ((items.flatMap FromItem.sources).any (FromItem.stems j.owner.source) = false →
        j.owner.source ∈ items'.flatMap FromItem.hidden) := by
  unfold addJoin at h
  dsimp only at h
  split at h
  · rename_i none
    rw [joinPositions_eq_nil] at none
    obtain rfl := Option.some.inj h
    simp only [List.flatMap_append, List.flatMap_singleton, FromItem.sources_extend,
      FromItem.hidden_extend, FromItem.sources, List.mem_append, List.mem_singleton, none]
    refine ⟨fun x => by tauto, fun x hx => .inl hx, fun x hx => .inr (.inr hx), fun _ => ?_⟩
    exact .inr (.inl trivial)
  · rename_i i one
    have found : (items.flatMap FromItem.sources).any (FromItem.stems j.owner.source) = true := by
      rw [← Bool.not_eq_false, ← joinPositions_eq_nil, one]
      exact List.cons_ne_nil _ _
    obtain ⟨item, hi⟩ := exists_of_mem_joinPositions (i := i) (one ▸ List.mem_singleton_self i)
    obtain rfl := Option.some.inj h
    obtain ⟨sources, old, new⟩ := mem_modify_extend hi (j.brings pairing)
      (fun item => item.extend (item.standIn j.owner.source) j pairing)
      (FromItem.sources_extend _ _ _ _) (FromItem.hidden_extend _ _ _ _)
    refine ⟨fun x => ?_, old, new, fun h => absurd found (by simp [h])⟩
    rw [sources, found]
    simp
  · cases h

/-- Adding joins adds what they bring and their strays, and takes all that they read out of the
list. -/
theorem mem_addJoins {joins : List Join} {next : ℕ}
    (h : addJoins pairing items joins = some (items', next)) :
    (∀ x, x ∈ items'.flatMap FromItem.sources ↔ x ∈ items.flatMap FromItem.sources ∨
      x ∈ brought pairing joins ∨
        x ∈ strays pairing (items.flatMap FromItem.sources) joins) ∧
      (∀ x ∈ items.flatMap FromItem.hidden, x ∈ items'.flatMap FromItem.hidden) ∧
      ∀ x, x ∈ brought pairing joins ∨ x ∈ strays pairing (items.flatMap FromItem.sources) joins →
        x ∈ items'.flatMap FromItem.hidden := by
  induction joins generalizing pairing items with
  | nil =>
    obtain ⟨rfl, rfl⟩ := Prod.mk.inj (Option.some.inj h)
    simp [brought, strays]
  | cons j joins ih =>
    unfold addJoins at h
    obtain ⟨added, hadded, h⟩ := Option.bind_eq_some_iff.mp h
    obtain ⟨sources, old, brings, stray⟩ := mem_addJoin hadded
    obtain ⟨sources', old', new'⟩ := ih h
    cases hs : (items.flatMap FromItem.sources).any (FromItem.stems j.owner.source) with
    | true =>
      have rest : strays (pairing + 1) (added.flatMap FromItem.sources) joins =
          strays pairing (items.flatMap FromItem.sources) (j :: joins) := by
        rw [strays, if_pos hs]
        refine strays_congr (fun x => ?_) joins
        rw [sources, hs, List.mem_append]
        simp
      rw [rest] at sources' new'
      refine ⟨fun x => ?_, fun x hx => old' x (old x hx), fun x hx => ?_⟩
      · rw [sources', sources, hs, brought, List.mem_append]
        tauto
      · rw [brought, List.mem_append, or_assoc] at hx
        exact hx.elim (fun hx => old' x (brings x hx)) (new' x)
    | false =>
      have rest : strays pairing (items.flatMap FromItem.sources) (j :: joins) =
          j.owner.source :: strays (pairing + 1) (added.flatMap FromItem.sources) joins := by
        rw [strays, if_neg (by simp [hs])]
        refine congrArg _ (strays_congr (fun x => ?_) joins)
        rw [sources, hs, List.mem_append, List.mem_cons]
        simp [or_comm]
      rw [rest]
      refine ⟨fun x => ?_, fun x hx => old' x (old x hx), fun x hx => ?_⟩
      · rw [sources', sources, hs, brought, List.mem_append, List.mem_cons]
        tauto
      · rw [brought, List.mem_append, List.mem_cons] at hx
        rcases hx with (hx | hx) | rfl | hx
        · exact old' x (brings x hx)
        · exact new' x (.inl hx)
        · exact old' _ (stray hs)
        · exact new' x (.inr hx)

end Joins

/-! ### FROM lists -/

theorem mem_distinctItems {items : List FromItem} {item : FromItem} :
    item ∈ distinctItems items ↔
      item ∈ items ∧ ∀ x, item = .source x → x ∉ items.flatMap FromItem.hidden := by
  unfold distinctItems
  simp only [List.mem_filter, List.mem_eraseDups]
  refine and_congr_right fun _ => ?_
  cases item with
  | source x => simp [List.mem_flatMap, List.mem_eraseDups]
  | join left right on outer => simp

theorem mem_hidden_distinctItems {items : List FromItem} {x : Source} :
    x ∈ (distinctItems items).flatMap FromItem.hidden ↔ x ∈ items.flatMap FromItem.hidden := by
  simp only [List.mem_flatMap, mem_distinctItems]
  constructor
  · rintro ⟨item, ⟨hi, _⟩, hx⟩
    exact ⟨item, hi, hx⟩
  · rintro ⟨item, hi, hx⟩
    refine ⟨item, ⟨hi, ?_⟩, hx⟩
    rintro y rfl
    cases hx

/-- What is taken out of a list as a source stands in it within a join. -/
theorem mem_sources_iff {items : List FromItem} {x : Source} :
    x ∈ items.flatMap FromItem.sources ↔
      x ∈ items.flatMap FromItem.hidden ∨ .source x ∈ items := by
  simp only [List.mem_flatMap]
  constructor
  · rintro ⟨item, hi, hx⟩
    cases item with
    | source y =>
      obtain rfl := List.mem_singleton.mp hx
      exact .inr hi
    | join left right on outer => exact .inl ⟨_, hi, hx⟩
  · rintro (⟨item, hi, hx⟩ | hi)
    · exact ⟨item, hi, FromItem.hidden_subset_sources item hx⟩
    · exact ⟨_, hi, List.mem_singleton_self x⟩

theorem source_mem_distinctItems {items : List FromItem} {x : Source} :
    .source x ∈ distinctItems items ↔ .source x ∈ items ∧ x ∉ items.flatMap FromItem.hidden := by
  rw [mem_distinctItems]
  simp

theorem mem_sources_distinctItems {items : List FromItem} {x : Source} :
    x ∈ (distinctItems items).flatMap FromItem.sources ↔ x ∈ items.flatMap FromItem.sources := by
  rw [mem_sources_iff, mem_sources_iff, mem_hidden_distinctItems, source_mem_distinctItems]
  tauto

@[simp] theorem flatMap_sources_source (xs : List Source) :
    (xs.map FromItem.source).flatMap FromItem.sources = xs := by
  simp [List.flatMap_map, FromItem.sources]

@[simp] theorem flatMap_hidden_source (xs : List Source) :
    (xs.map FromItem.source).flatMap FromItem.hidden = [] := by
  simp [List.flatMap_map, FromItem.hidden]

namespace Scope

/-- Whether a statement leaves a source to the statements around it. One that is correlated with some
roots leaves out these, at whatever level they are read; any other leaves out what the innermost
statement around it reads, provided that its list has more than one element. -/
def leavesOut (scope : Scope) (correlation : Correlation) (items : List FromItem) (x : Source) :
    Bool :=
  match correlation with
  | .only roots => roots.contains x && scope.every.contains x
  | .allBut own => scope.every.contains x && !own.contains x
  | .automatic => decide (1 < items.length) && scope.nearest.contains x

theorem keep?_eq_some {scope : Scope} {correlation : Correlation} {items kept : List FromItem}
    (h : scope.keep? correlation items = some kept) :
    kept = items.filter fun
      | .source x => !scope.leavesOut correlation items x
      | .join .. => true := by
  unfold keep? at h
  cases correlation with
  | only roots => exact (Option.some.inj h).symm
  | allBut own => exact (Option.some.inj h).symm
  | automatic =>
    dsimp only at h
    split at h
    · rename_i active
      rw [Bool.and_eq_true] at active
      split at h
      · cases h
      · rw [← Option.some.inj h]
        refine List.filter_congr fun item _ => ?_
        cases item with
        | source x => simp [leavesOut, active.2]
        | join left right on outer => rfl
    · rename_i inactive
      have none (x : Source) : scope.leavesOut .automatic items x = false := by
        unfold leavesOut
        cases hn : scope.nearest with
        | nil => simp
        | cons y ys =>
          have few : ¬1 < items.length := by simpa [hn] using inactive
          simp [few]
      rw [← Option.some.inj h]
      simp only [none]
      refine (List.filter_eq_self.mpr fun item _ => ?_).symm
      cases item <;> rfl

/-- What a list reads that a statement keeps of its own. -/
theorem mem_sources_kept {scope : Scope} {correlation : Correlation} {items kept : List FromItem}
    (h : scope.keep? correlation items = some kept) {x : Source} :
    x ∈ kept.flatMap FromItem.sources ↔ x ∈ items.flatMap FromItem.hidden ∨
      .source x ∈ items ∧ scope.leavesOut correlation items x = false := by
  rw [keep?_eq_some h, mem_sources_iff]
  refine or_congr ?_ (by simp)
  simp only [List.mem_flatMap, List.mem_filter]
  constructor
  · rintro ⟨item, ⟨hi, _⟩, hx⟩
    exact ⟨item, hi, hx⟩
  · rintro ⟨item, hi, hx⟩
    cases item with
    | source y => cases hx
    | join left right on outer => exact ⟨_, ⟨hi, rfl⟩, hx⟩

end Scope

namespace Select

/-- What a statement was built to list: its roots, and what its joins bring. -/
def own (s : Select) (pairing : ℕ) : List Source := s.roots ++ brought pairing s.joins

/-- What a statement mentions in its select list and its conditions; without roots also what the
entries of its select list are parts of. -/
def mentions (s : Select) : List Source :=
  (if s.roots.isEmpty && s.joins.isEmpty && s.carriesEntity then
      s.items.filterMap SelectItem.principal?
    else []) ++ s.items.flatMap SelectItem.sources ++ Term.sourcesOfAll s.conditions

/-- Of all that the FROM list of a statement could read, correlation leaves out what is not its own,
and nothing else. -/
structure Isolated (s : Select) (scope : Scope) (pairing : ℕ) (items : List FromItem) : Prop where
  /-- No join lists an owner that is not its own. -/
  joins : ∀ x ∈ strays pairing s.roots s.joins, x ∈ s.own pairing
  /-- Whatever else it mentions is left to the statements around. -/
  mentions : ∀ x ∈ s.mentions, x ∉ s.own pairing → scope.leavesOut s.correlation items x = true
  /-- No root that stands in the list by itself is left to them. -/
  roots : ∀ x ∈ s.roots, .source x ∈ items → scope.leavesOut s.correlation items x = false

variable {s : Select} {pairing next : ℕ} {items : List FromItem}

/-- What a statement lists by itself no join reads. -/
theorem not_hidden_of_mem_fromItems (h : s.fromItems pairing = some (items, next)) {x : Source}
    (hx : .source x ∈ items) : x ∉ items.flatMap FromItem.hidden := by
  unfold fromItems at h
  obtain ⟨⟨explicit, next'⟩, _, h⟩ := Option.bind_eq_some_iff.mp h
  obtain ⟨rfl, rfl⟩ := Prod.mk.inj (Option.some.inj h)
  rw [mem_hidden_distinctItems]
  exact (source_mem_distinctItems.mp hx).2

/-- All that the FROM list of a statement reads before correlation. Its joins read all that they
bring and their strays, and nothing that is only mentioned. -/
theorem mem_fromItems (h : s.fromItems pairing = some (items, next)) :
    (∀ x, x ∈ items.flatMap FromItem.sources ↔ x ∈ s.own pairing ∨
      x ∈ strays pairing s.roots s.joins ∨ x ∈ s.mentions) ∧
    (∀ x, x ∈ brought pairing s.joins ∨ x ∈ strays pairing s.roots s.joins →
      x ∈ items.flatMap FromItem.hidden) ∧
    ∀ x ∈ items.flatMap FromItem.hidden,
      x ∈ s.own pairing ∨ x ∈ strays pairing s.roots s.joins := by
  unfold fromItems at h
  obtain ⟨⟨explicit, next'⟩, hexplicit, h⟩ := Option.bind_eq_some_iff.mp h
  obtain ⟨rfl, rfl⟩ := Prod.mk.inj (Option.some.inj h)
  obtain ⟨sources, -, joined⟩ := mem_addJoins hexplicit
  rw [flatMap_sources_source] at sources joined
  have bare : explicit.isEmpty = (s.roots.isEmpty && s.joins.isEmpty) := by
    rw [Bool.eq_iff_iff, Bool.and_eq_true, List.isEmpty_iff, List.isEmpty_iff, List.isEmpty_iff]
    constructor
    · rintro rfl
      have nothing (x : Source) := (sources x).not.mp List.not_mem_nil
      refine ⟨List.eq_nil_iff_forall_not_mem.mpr fun x hx => nothing x (.inl hx), ?_⟩
      cases hj : s.joins with
      | nil => rfl
      | cons j js =>
        refine absurd (.inr (.inl ?_)) (nothing j.target.source)
        rw [hj, brought, List.mem_append]
        exact .inl (j.target_mem_brings _)
    · rintro ⟨hr, hj⟩
      rw [hr, hj] at hexplicit
      exact (Prod.mk.inj (Option.some.inj hexplicit)).1.symm
  simp only [mem_sources_distinctItems, mem_hidden_distinctItems, List.flatMap_append,
    flatMap_sources_source, flatMap_hidden_source, List.append_nil]
  cases hb : explicit.isEmpty with
  | true =>
    rw [hb, eq_comm, Bool.and_eq_true, List.isEmpty_iff, List.isEmpty_iff] at bare
    have own : s.own pairing = [] := by simp [own, bare.1, bare.2, brought]
    have strays : strays pairing s.roots s.joins = [] := by simp [bare.2, strays]
    have brought : brought pairing s.joins = [] := by simp [bare.2, brought]
    simp only [↓reduceIte, flatMap_sources_source, flatMap_hidden_source, own, strays, brought,
      List.not_mem_nil, false_or, false_implies, implies_true, and_true]
    simp only [mentions, bare, List.isEmpty_nil, Bool.true_and, List.append_assoc, implies_true]
  | false =>
    rw [hb] at bare
    simp only [Bool.false_eq_true, ↓reduceIte, mentions, ← bare, Bool.false_and, List.nil_append]
    refine ⟨fun x => ?_, joined, fun x hx => ?_⟩
    · simp only [List.mem_append, sources, own, or_assoc]
    · rw [own, List.mem_append, or_assoc, ← sources, mem_sources_iff]
      exact .inl hx

/-- A statement lists exactly what it was built to list if it is isolated, and only then. -/
theorem lists_own_iff {scope : Scope} {kept : List FromItem}
    (h : s.fromItems pairing = some (items, next))
    (hk : scope.keep? s.correlation items = some kept) :
    (∀ x, x ∈ kept.flatMap FromItem.sources ↔ x ∈ s.own pairing) ↔
      s.Isolated scope pairing items := by
  obtain ⟨sources, joined, reads⟩ := mem_fromItems h
  have listed (x : Source) := Scope.mem_sources_kept hk (x := x)
  have stands (x : Source) : x ∈ items.flatMap FromItem.sources ↔
      x ∈ items.flatMap FromItem.hidden ∨ .source x ∈ items := mem_sources_iff
  constructor
  · intro exact
    refine ⟨fun x hx => ?_, fun x hx foreign => ?_, fun x hx alone => ?_⟩
    · exact (exact x).mp ((listed x).mpr (.inl (joined x (.inr hx))))
    · have absent := (exact x).not.mpr foreign
      rw [listed, not_or, not_and, Bool.not_eq_false] at absent
      have present := (stands x).mp ((sources x).mpr (.inr (.inr hx)))
      exact absent.2 (present.resolve_left absent.1)
    · have present := (exact x).mpr (List.mem_append_left _ hx)
      rcases (listed x).mp present with hidden | ⟨-, kept⟩
      · exact absurd hidden (not_hidden_of_mem_fromItems h alone)
      · exact kept
  · intro isolated x
    rw [listed]
    constructor
    · intro hx
      have present := (sources x).mp ((stands x).mpr (hx.imp_right And.left))
      rcases present with own | stray | mentioned
      · exact own
      · exact isolated.joins x stray
      · by_contra foreign
        rcases hx with hidden | ⟨-, kept⟩
        · exact foreign ((reads x hidden).elim id (isolated.joins x))
        · rw [isolated.mentions x mentioned foreign] at kept
          cases kept
    · intro hx
      rcases (stands x).mp ((sources x).mpr (.inl hx)) with hidden | alone
      · exact .inl hidden
      · refine .inr ⟨alone, ?_⟩
        rcases List.mem_append.mp hx with root | brings
        · exact isolated.roots x root alone
        · exact absurd (joined x (.inl brings)) (not_hidden_of_mem_fromItems h alone)

/-- Without explicit correlation, a statement with roots is isolated directly inside one that lists
all that it mentions beyond its own. -/
theorem isolated_of_nearest {scope : Scope} (h : s.fromItems pairing = some (items, next))
    (automatic : s.correlation = .automatic) (rooted : s.roots ≠ [])
    (joins : ∀ x ∈ strays pairing s.roots s.joins, x ∈ s.own pairing)
    (listed : ∀ x ∈ s.mentions, x ∉ s.own pairing → x ∈ scope.nearest)
    (fresh : ∀ x ∈ s.roots, x ∉ scope.nearest) : s.Isolated scope pairing items := by
  obtain ⟨sources, -, reads⟩ := mem_fromItems h
  refine ⟨joins, fun x hx foreign => ?_, fun x hx _ => ?_⟩
  · have alone : .source x ∈ items := by
      refine (mem_sources_iff.mp ((sources x).mpr (.inr (.inr hx)))).resolve_left fun hidden => ?_
      exact foreign ((reads x hidden).elim id (joins x))
    obtain ⟨r, hr⟩ := List.exists_mem_of_ne_nil _ rooted
    have own := List.mem_append_left (brought pairing s.joins) hr
    obtain ⟨item, hitem, hr⟩ := List.mem_flatMap.mp ((sources r).mpr (.inl own))
    -- The root and what is mentioned stand in two elements of the list.
    have several : 1 < items.length := by
      by_contra few
      obtain ⟨y, rfl⟩ := List.length_eq_one_iff.mp
        (Nat.le_antisymm (by omega) (List.length_pos_of_mem alone))
      rw [List.mem_singleton.mp hitem, ← List.mem_singleton.mp alone] at hr
      exact foreign (List.mem_singleton.mp hr ▸ own)
    simp [Scope.leavesOut, automatic, several, listed x hx foreign]
  · simp [Scope.leavesOut, automatic, fresh x hx]

/-- A statement that is correlated with the sources of statements around it is isolated if it
mentions no others. -/
theorem isolated_of_correlated {scope : Scope} {enclosing : List Source}
    (explicit : s.correlation = .only enclosing)
    (joins : ∀ x ∈ strays pairing s.roots s.joins, x ∈ s.own pairing)
    (listed : ∀ x ∈ s.mentions, x ∉ s.own pairing → x ∈ enclosing ∧ x ∈ scope.every)
    (fresh : ∀ x ∈ s.roots, x ∉ scope.every) : s.Isolated scope pairing items := by
  refine ⟨joins, fun x hx foreign => ?_, fun x hx _ => ?_⟩
  · obtain ⟨correlated, read⟩ := listed x hx foreign
    simp [Scope.leavesOut, explicit, correlated, read]
  · simp [Scope.leavesOut, explicit, fresh x hx]

end Select

end FluentQuery.Sql
