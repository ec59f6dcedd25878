import FluentQuery.Proofs.Filters
import FluentQuery.Proofs.Provenance.Programs

/-! Builds are repeatable. Building a stream again, when what its functions read holds what it held,
ends as it did the first time, up to the numbers and addresses of what each build makes. -/

namespace FluentQuery

open Sql

/-! ### What was made before -/

namespace Renaming

/-- What comes after `a` comes after `b` instead. -/
def shift (a b n : Nat) : Nat := if n < a then n else b + (n - a)

theorem shift_injective {a b : Nat} (h : a ≤ b) : Function.Injective (shift a b) := by
  intro m n hmn
  unfold shift at hmn
  split at hmn <;> split at hmn <;> omega

theorem shift_of_lt {a n : Nat} (b : Nat) (h : n < a) : shift a b n = n := if_pos h

theorem shift_add (a b k : Nat) : shift a b (a + k) = b + k := by
  unfold shift
  split <;> omega

/-- What is made after `e` is made after `e'` instead. -/
def resume (e e' : Extent) (h : e.Le e') (pos : 0 < e.next) : Renaming where
  number := shift e.next e'.next
  address space := shift (e.length space) (e'.length space)
  number_injective := shift_injective h.next
  address_injective space := shift_injective (h.length space)
  number_zero := shift_of_lt _ pos

theorem resume_fixes {e e' : Extent} (h : e.Le e') (pos : 0 < e.next) :
    (resume e e' h pos).Fixes e where
  number _ hn := shift_of_lt _ hn
  address _ _ hi := shift_of_lt _ hi

end Renaming

/-- Whatever a machine stores was made on it before. -/
structure Machine.WellMade (m : Machine) : Prop where
  positive : 0 < m.next
  globals : ∀ name, Made m.extent (m.globals.lookup name)
  refs : ∀ x ∈ m.refs, Made m.extent x
  contexts : ∀ x ∈ m.contexts, Made m.extent x
  queries : ∀ x ∈ m.queries, Made m.extent x
  mappings : ∀ x ∈ m.mappings, Made m.extent x

/-! ### Two moments -/

/-- On the footprint, `ys` holds what `xs` holds, which leads to nothing else. The footprint covers
whatever is stored after `xs`. -/
structure StillHolds (F : Footprint) (space : Space) {α : Type} [Renamable α] (xs ys : List α) :
    Prop where
  later : ∀ i, xs.length ≤ i → F.address space i
  within : ∀ i, F.address space i → Within F xs[i]?
  same : ∀ i < xs.length, F.address space i → ys[i]? = xs[i]?

/-- What a machine holds on the footprint leads to nothing else, and a later machine still holds
it. -/
structure Machine.Revisited (m : Machine) (F : Footprint) (m' : Machine) : Prop where
  settings : m'.settings = m.settings
  depth : m'.stack.length = m.stack.length
  extent : m.extent.Le m'.extent
  within : ∀ name, F.globals name → Within F (m.globals.lookup name)
  globals : ∀ name, F.globals name → m'.globals.lookup name = m.globals.lookup name
  refs : StillHolds F .refs m.refs m'.refs
  contexts : StillHolds F .contexts m.contexts m'.contexts
  queries : StillHolds F .queries m.queries m'.queries
  mappings : StillHolds F .mappings m.mappings m'.mappings

theorem StillHolds.nil {F : Footprint} {space : Space} {α : Type} [Renamable α] {ys : List α}
    (whole : ∀ i, F.address space i) : StillHolds F space [] ys :=
  ⟨fun i _ => whole i, fun _ _ _ => nofun, fun _ => nofun⟩

theorem StillHolds.alike {F : Footprint} {space : Space} {α : Type} [Renamable α] {xs ys : List α}
    (h : StillHolds F space xs ys) {ρ : Renaming}
    (moved : ρ.address space = Renaming.shift xs.length ys.length)
    (fixed : ∀ x ∈ xs, rename ρ x = x) : StoredAlike ρ F space xs ys where
  next k := by rw [moved, Renaming.shift_add]
  ahead k := h.later _ (Nat.le_add_right _ _)
  content {i} hi := by
    refine ⟨?_, h.within i hi⟩
    rw [moved]
    rcases Nat.lt_or_ge i xs.length with below | above
    · rw [Renaming.shift_of_lt _ below, h.same i below hi]
      have held := List.getElem?_eq_getElem below
      rw [held]
      exact congrArg some (fixed _ (List.getElem_mem below)).symm
    · obtain ⟨k, rfl⟩ := Nat.exists_eq_add_of_le above
      rw [Renaming.shift_add, List.getElem?_eq_none (Nat.le_add_right _ _),
        List.getElem?_eq_none (Nat.le_add_right _ _)]
      rfl

/-- A machine and a later one that still holds what the first held are alike. -/
theorem Machine.Revisited.alike {F : Footprint} {m m' : Machine} (h : m.Revisited F m')
    (made : m.WellMade) :
    Alike false (.resume m.extent m'.extent h.extent made.positive) F m m' := by
  have fixes := Renaming.resume_fixes h.extent made.positive
  exact {
    settings := h.settings
    next := fun k => Renaming.shift_add _ _ _
    globals := fun {name} hn =>
      ⟨by rw [h.globals name hn, made.globals name _ fixes], h.within name hn⟩
    refs := h.refs.alike rfl fun x hx => made.refs x hx _ fixes
    contexts := fun _ => h.contexts.alike rfl fun x hx =>
      made.contexts x hx _ fixes
    queries := h.queries.alike rfl fun x hx =>
      made.queries x hx _ fixes
    mappings := h.mappings.alike rfl fun x hx =>
      made.mappings x hx _ fixes
    stack := ⟨h.depth, nofun, nofun⟩ }

/-! ### Building again -/

/-- A query context and its counterpart are alike, and so are the statements they stand for: they
fail alike, or read the same and have the same parameters. -/
structure SameQuery (ρ : Renaming) (m m' : Machine) (c : ContextId) : Prop where
  context : m'.context? (c.rename ρ) = (m.context? c).map (Context.rename ρ)
  statement : ∀ x, m.context? c = some x →
    (x.rename ρ).statement m' = (x.statement m).map (Statement.rename ρ)
  rendered : ∀ x s, m.context? c = some x → x.statement m = .ok s →
    (s.rename ρ).render = s.render.map (Rendered.rename ρ)

/-- Both builds end alike, and leave machines that are alike. -/
theorem Stream.toContext_counterpart {m m' : Machine} (made : m.WellMade) {F : Footprint}
    (again : m.Revisited F m') {s : Stream} (own : Made m.extent s) (hs : s.Within F)
    (depth : Nat) :
    let build : Run Value := s.toContext (callAny (eval depth))
    ∃ ρ : Renaming, ρ.Fixes m.extent ∧ Counterpart ρ F (exec build m).1 (exec build m').1 ∧
      Alike false ρ F (after build m) (after build m') := by
  intro build
  have fixes := Renaming.resume_fixes again.extent made.positive
  have : F.Contextual := ⟨_, again.contexts.later _ (Nat.le_refl _)⟩
  refine ⟨_, fixes, ?_⟩
  have call {f : Value} {args : List Value} (hf : f.Within F) (ha : ∀ v ∈ args, v.Within F) :=
    callAny_mirror (ρ := .resume _ _ again.extent made.positive) (eval_mirror depth) hf ha
  have mirrored : MirrorAt false _ F build ((s.rename _).toContext (callAny (eval depth))) :=
    Stream.toContext_mirror call hs
  rw [show s.rename _ = s from own _ fixes] at mirrored
  exact mirrored (again.alike made)

/-- A query context that a build gives is the same query as its counterpart. -/
theorem SameQuery.of_alike {ρ : Renaming} {F : Footprint} {m m' : Machine} {c : ContextId}
    (alike : Alike false ρ F m m') (reached : F.address .contexts c.index) :
    SameQuery ρ m m' c := by
  have context := alike.context? reached
  exact {
    context := context.eq
    statement := fun x hx => x.statement_alike alike.toStoresAlike (context.within x hx)
    rendered := fun x t _ _ => t.render_rename }

theorem Stream.toContext_repeats {m m' : Machine} (made : m.WellMade) {F : Footprint}
    (again : m.Revisited F m') {s : Stream} (own : Made m.extent s) (hs : s.Within F)
    (depth : Nat) :
    let build : Run Value := s.toContext (callAny (eval depth))
    ∃ ρ : Renaming, ρ.Fixes m.extent ∧
      (exec build m').1 = (exec build m).1.map (Value.rename ρ) ∧
      ∀ c, (exec build m).1 = .ok (.context c) → SameQuery ρ (after build m) (after build m') c := by
  intro build
  obtain ⟨ρ, fixes, result, alike⟩ := s.toContext_counterpart made again own hs depth
  exact ⟨ρ, fixes, result.eq, fun c hc => .of_alike alike (result.within (.context c) hc)⟩

/-! ### In programs -/

theorem Machine.Known.wellMade {w : Moment} {m : Machine} (h : m.Known w) : m.WellMade where
  positive := h.positive
  globals name ρ hρ := by
    rw [← h.extent] at hρ
    cases held : m.globals.lookup name with
    | none => rfl
    | some v => exact congrArg some ((known_of_lookup (fun x hx => (h.globals x hx).2) held).fixed hρ)
  refs x hx ρ hρ := by
    rw [← h.extent] at hρ
    cases x with
    | none => rfl
    | some v => exact congrArg some ((h.refs _ hx v rfl).fixed hρ)
  contexts x hx ρ hρ := (h.contexts x hx).fixed (h.extent ▸ hρ)
  queries x hx ρ hρ := (h.queries x hx).fixed (h.extent ▸ hρ)
  mappings x hx ρ hρ := Value.renameEntries_fixed (h.extent ▸ hρ) fun y hy => (h.mappings x hx y hy).2

/-- At every moment of a program, whatever is stored was made before, and so was every stream that an
expression gives. Built again when what its functions read holds what it held, a stream fails as it
did, or gives a context that is the first one's counterpart, up to what each build makes; and the
statements of the two read the same and have the same parameters. -/
theorem builds_repeat (depth : Nat) :
    (∀ settings, (Machine.start settings).Known (.start settings)) ∧
    (∀ w scope e, Known w scope → Sound w (eval depth scope e)) ∧
    (∀ w m steps, m.Known w → ∃ w', w.Le w' ∧ (runSteps steps m).2.Known w') ∧
    ∀ (w : Moment) (m m' : Machine) (F : Footprint) (s : Stream), m.Known w → s.Known w →
      s.Within F → m.Revisited F m' →
      let build := s.toContext (callAny (eval depth))
      ∃ ρ : Renaming, ρ.Fixes m.extent ∧
        (exec build m').1 = (exec build m).1.map (Value.rename ρ) ∧
        ∀ v, (exec build m).1 = .ok v →
          ∃ c, v = .context c ∧ SameQuery ρ (after build m) (after build m') c := by
  refine ⟨Machine.start_known, fun w scope e hs => eval_sound depth hs e,
    fun w m steps hm => runSteps_known steps hm, fun w m m' F s hm hs reads again => ?_⟩
  intro build
  have own : Made m.extent s := fun ρ hρ => Stream.Known.fixed (hm.extent ▸ hρ) hs
  obtain ⟨ρ, fixes, result, alike⟩ := s.toContext_repeats hm.wellMade again own reads depth
  refine ⟨ρ, fixes, result, fun v hv => ?_⟩
  obtain ⟨rfl, -⟩ := s.toContext_configured (Prod.ext hv rfl)
  exact ⟨_, rfl, alike _ hv⟩

/-- A stream filtered by a variable, built once, and once more after another query was made. -/
theorem builds_repeat_filtered :
    let product : Value := .mapped ⟨.product, none⟩
    let t : QueryType := ⟨2, .search, product⟩
    let above : Closure := ⟨5, ["p"],
      .compare .gt (.get (.variable "p") "price") (.variable "limit"), []⟩
    let s : Stream := ⟨4, .of .search, .session ⟨1, ⟨some [], none, none⟩⟩, .queryType t,
      .configurer ⟨3, .root product, [.filter (.queryType t) (.function (.closure above))]⟩,
      .unset, .unset, [], []⟩
    let m : Machine := { Machine.start ⟨false, false, false⟩ with
      next := 7, globals := [("limit", .int 6 5), ("s", .stream s)] }
    let m' : Machine := { m with next := 9, contexts := [.query] }
    let build := s.toContext (callAny (eval 8))
    ∃ ρ c, (exec build m).1 = .ok (.context c) ∧ (exec build m').1 = .ok (.context (c.rename ρ)) ∧
      SameQuery ρ (after build m) (after build m') c := by
  intro product t above s m m' build
  let w : Moment := ⟨m.extent, fun n => if n = 4 then some s else none⟩
  let F : Footprint := ⟨fun _ => True, fun _ _ => True⟩
  have given {n : Nat} (h : n < 7) : w.Given n := h
  have whole : product.Known w := fun _ _ => rfl
  have type : t.Known w := ⟨given (by decide), whole⟩
  have known : s.Known w := by
    refine ⟨⟨given (by decide), rfl⟩, given (by decide), type, ⟨given (by decide), whole, ?_, trivial⟩,
      trivial, trivial⟩
    exact ⟨type, given (by decide), trivial⟩
  have machine : m.Known w := by
    refine ⟨⟨?_, known_nil, known_nil, known_nil, known_nil, known_nil⟩, rfl, by decide⟩
    exact List.forall_mem_cons.mpr ⟨⟨trivial, given (by decide)⟩,
      List.forall_mem_singleton.mpr ⟨trivial, known⟩⟩
  have reads : s.Within F := by simp [s, F, t, product, above, Expr.Confined]
  have held : ∀ x ∈ m.globals, x.2.Within F :=
    List.forall_mem_cons.mpr ⟨trivial, List.forall_mem_singleton.mpr reads⟩
  have again : m.Revisited F m' := {
    settings := rfl
    depth := rfl
    extent := ⟨by decide, fun space => by cases space <;> decide⟩
    within := fun _ _ _ hv => Value.within_of_lookup held hv
    globals := fun _ _ => rfl
    refs := .nil fun _ => trivial
    contexts := .nil fun _ => trivial
    queries := .nil fun _ => trivial
    mappings := .nil fun _ => trivial }
  obtain ⟨-, -, -, repeats⟩ := builds_repeat 8
  obtain ⟨ρ, -, result, alike⟩ := repeats w m m' F s machine known reads again
  obtain ⟨v, last, built, -⟩ := exec_of_check (x := build) (m := m) (fun _ _ => true) (by decide +kernel)
  have first : (exec build m).1 = .ok v := by rw [built]
  obtain ⟨c, rfl, same⟩ := alike v first
  exact ⟨ρ, c, first, by rw [result, first]; rfl, same⟩

end FluentQuery
