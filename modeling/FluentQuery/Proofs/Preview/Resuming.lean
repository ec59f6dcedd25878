import FluentQuery.Proofs.Preview.Aloof
import FluentQuery.Proofs.Renaming.Composition
import FluentQuery.Proofs.Structure

/-! A run that is followed on another machine while that one does more. What is done in between takes
numbers and addresses, but leaves what is followed as it was; from there on both go on together. -/

namespace FluentQuery

open Sql

/-! ### Places that are left alone -/

/-- What the machine holds where the footprint reaches leads to nothing else, and to no query context.
The footprint covers whatever else is stored later. -/
structure Footprint.Covers (F : Footprint) (m : Machine) : Prop where
  apart : ¬F.Contextual
  later : ∀ space, space ≠ .contexts → ∀ i, m.extent.length space ≤ i → F.address space i
  globals : ∀ name, F.globals name → Within F (m.globals.lookup name)
  refs : ∀ i, F.address .refs i → Within F m.refs[i]?
  queries : ∀ i, F.address .queries i → Within F m.queries[i]?
  mappings : ∀ i, F.address .mappings i → Within F m.mappings[i]?

/-- A later machine holds what the first one held where the footprint reaches. -/
structure Machine.Retains (F : Footprint) (m m' : Machine) : Prop where
  settings : m'.settings = m.settings
  depth : m'.stack.length = m.stack.length
  extent : m.extent.Le m'.extent
  globals : ∀ name, F.globals name → m'.globals.lookup name = m.globals.lookup name
  refs : ∀ i < m.refs.length, F.address .refs i → m'.refs[i]? = m.refs[i]?
  queries : ∀ i < m.queries.length, F.address .queries i → m'.queries[i]? = m.queries[i]?
  mappings : ∀ i < m.mappings.length, F.address .mappings i → m'.mappings[i]? = m.mappings[i]?

variable {F : Footprint} {b m n o : Machine}

theorem Machine.Retains.refl (F : Footprint) (m : Machine) : m.Retains F m :=
  ⟨rfl, rfl, .refl _, fun _ _ => rfl, fun _ _ _ => rfl, fun _ _ _ => rfl, fun _ _ _ => rfl⟩

/-- A machine and a later one that holds what the first one held are alike. -/
theorem Footprint.Covers.alike (covers : F.Covers m) (made : m.WellMade) (h : m.Retains F n) :
    Alike false (.resume m.extent n.extent h.extent made.positive) F m n := by
  have fixes := Renaming.resume_fixes h.extent made.positive
  have still {space : Space} {α : Type} [Renamable α] {xs ys : List α} (other : space ≠ .contexts)
      (length : m.extent.length space = xs.length) (within : ∀ i, F.address space i → Within F xs[i]?)
      (same : ∀ i < xs.length, F.address space i → ys[i]? = xs[i]?) : StillHolds F space xs ys :=
    ⟨fun i hi => covers.later space other i (length ▸ hi), within, same⟩
  exact {
    settings := h.settings
    next := fun k => Renaming.shift_add _ _ _
    globals := fun {name} hn =>
      ⟨by rw [h.globals name hn, made.globals name _ fixes], covers.globals name hn⟩
    refs := (still (by decide) rfl covers.refs h.refs).alike rfl fun x hx => made.refs x hx _ fixes
    contexts := fun contextual => absurd contextual covers.apart
    queries := (still (by decide) rfl covers.queries h.queries).alike rfl
      fun x hx => made.queries x hx _ fixes
    mappings := (still (by decide) rfl covers.mappings h.mappings).alike rfl
      fun x hx => made.mappings x hx _ fixes
    stack := ⟨h.depth, nofun, nofun⟩ }

/-! ### Going on later -/

variable {ρ σ : Renaming}

/-- What fixes the places of before leads from those that are covered to none that is not. -/
theorem Footprint.Covers.preserved (covers : F.Covers b) (fixes : ρ.Fixes b.extent) {space : Space}
    {i : Nat} (hi : F.address space i) : F.address space (ρ.address space i) := by
  by_cases before : i < b.extent.length space
  · rwa [fixes.address space i before]
  refine covers.later space ?_ _ (Nat.le_of_not_lt fun back => before ?_)
  · rintro rfl
    exact covers.apart ⟨i, hi⟩
  · have same := ρ.address_injective space (fixes.address space _ back)
    rwa [same] at back

theorem StoredAlike.resumed {space : Space} {α : Type} [Renamable α] [Composable α]
    {xs ys zs : List α} (h : StoredAlike ρ F space xs ys)
    (into : ∀ {i}, F.address space i → F.address space (ρ.address space i))
    (same : ∀ i < ys.length, F.address space i → zs[i]? = ys[i]?)
    (moved : σ.address space = Renaming.shift ys.length zs.length)
    (fixed : ∀ y ∈ ys, rename σ y = y) : StoredAlike (σ.comp ρ) F space xs zs where
  next k := by
    change σ.address space (ρ.address space (xs.length + k)) = _
    rw [h.next, moved, Renaming.shift_add]
  ahead := h.ahead
  content {i} hi := by
    obtain ⟨eq, within⟩ := h.content hi
    refine ⟨?_, within⟩
    rw [Composable.rename_comp, ← eq, Renaming.address_comp, Function.comp, moved]
    rcases Nat.lt_or_ge (ρ.address space i) ys.length with below | above
    · rw [Renaming.shift_of_lt _ below, same _ below (into hi), List.getElem?_eq_getElem below]
      exact congrArg some (fixed _ (List.getElem_mem below)).symm
    · obtain ⟨k, hk⟩ := Nat.exists_eq_add_of_le above
      rw [hk, Renaming.shift_add, List.getElem?_eq_none (Nat.le_add_right _ _),
        List.getElem?_eq_none (Nat.le_add_right _ _)]
      rfl

/-- What `w` knows keeps its place. -/
theorem Renaming.resume_fixes_known {w : Moment} (known : n.Known w) (le : n.extent.Le o.extent) :
    (resume n.extent o.extent le known.positive).Fixes w.extent := by
  rw [known.extent]
  exact resume_fixes le known.positive

theorem Renaming.Fixes.comp {e e' : Extent} (h : ρ.Fixes e) (h' : σ.Fixes e') (le : e.Le e') :
    (σ.comp ρ).Fixes e where
  number i hi := by
    rw [number_comp, Function.comp, h.number i hi, h'.number i (Nat.lt_of_lt_of_le hi le.next)]
  address space i hi := by
    rw [address_comp, Function.comp, h.address space i hi,
      h'.address space i (Nat.lt_of_lt_of_le hi (le.length space))]

/-- If more is done on the second machine that leaves alone what is followed, the first one has still
kept up with it. -/
theorem Tracks.resumed {c c' : ContextId} (hm : Tracks true true Context.bare ρ F c c' m n)
    (covers : F.Covers b) (fixes : ρ.Fixes b.extent) {w : Moment} (known : n.Known w)
    (retains : n.Retains F o) (stack : SameStack n o) (same : SameRestriction c' n o) :
    Tracks true true Context.bare
      ((Renaming.resume n.extent o.extent retains.extent known.positive).comp ρ) F c c' m o := by
  have fixed := Renaming.resume_fixes_known known retains.extent
  have made := known.wellMade
  have unmoved := Renaming.resume_fixes retains.extent known.positive
  have into {space : Space} {i : Nat} (hi : F.address space i) := covers.preserved fixes hi
  have frames : n.stack.head?.map Frame.builder = o.stack.head?.map Frame.builder := by rw [stack]
  obtain ⟨x, y, hx, hy, seen⟩ := hm.seen
  have restriction := Option.map_eq_some_iff.mp (same y.restriction (by
    rw [Machine.restriction?, hy]
    rfl))
  obtain ⟨z, hz, restricted⟩ := restriction
  have context : y.Known w := known.contexts y (List.mem_of_getElem? hy)
  exact {
    settings := retains.settings.trans hm.settings
    next := fun k => by
      rw [Renaming.number_comp, Function.comp, hm.next]
      exact Renaming.shift_add _ _ _
    globals := fun {name} hn => by
      rw [retains.globals name hn]
      exact (hm.globals hn).comp_of_fixed (made.globals name _ unmoved)
    refs := hm.refs.resumed into retains.refs rfl fun y hy => made.refs y hy _ unmoved
    contexts := fun contextual => absurd contextual covers.apart
    queries := hm.queries.resumed into retains.queries rfl fun y hy => made.queries y hy _ unmoved
    mappings := hm.mappings.resumed into retains.mappings rfl
      fun y hy => made.mappings y hy _ unmoved
    stack := by
      refine ⟨retains.depth.trans hm.stack.depth, fun h => ?_,
        fun _ contextual => absurd contextual covers.apart⟩
      rw [← frames]
      refine (hm.stack.builder h).comp_of_fixed ?_
      cases hs : n.stack with
      | nil => rfl
      | cons fr rest =>
        have top : fr.Known w := known.stack fr (by simp [hs])
        exact congrArg some (top.builder.fixed fixed)
    seen := by
      have counterpart := (seen.restriction Context.restriction_bare).comp_of_fixed
        (σ := .resume _ _ retains.extent known.positive) (context.restriction.fixed fixed)
      refine ⟨x, z, hx, hz, ?_, seen.within⟩
      exact congrArg (Context.mk · .common) (restricted.trans counterpart.eq)
    frames := fun h => by
      obtain ⟨inside, inside'⟩ := hm.frames h
      refine ⟨inside, ?_⟩
      unfold Machine.Inside at inside' ⊢
      rwa [stack] }

end FluentQuery
