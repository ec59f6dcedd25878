import FluentQuery.Proofs.Outcome
import FluentQuery.Proofs.Renaming.Context

/-! Machines that are alike up to a renaming, as far as a footprint reaches: whatever either of them
makes next gets corresponding numbers and addresses. -/

namespace FluentQuery

open Sql

/-! ### Counterparts -/

/-- Data that a renaming acts on, and of which it can be told whether it leads out of a footprint. -/
class Renamable (α : Type) where
  rename : Renaming → α → α
  Within : Footprint → α → Prop

export Renamable (rename Within)

/-- Data without numbers and addresses. -/
@[reducible] def Renamable.inert (α : Type) : Renamable α := ⟨fun _ a => a, fun _ _ => True⟩

instance : Renamable Value := ⟨Value.rename, Value.Within⟩

instance : Renamable RefId := ⟨RefId.rename, fun F r => F.address .refs r.index⟩

instance : Renamable ContextId := ⟨ContextId.rename, fun F c => F.address .contexts c.index⟩

instance : Renamable QueryId := ⟨QueryId.rename, fun F q => F.address .queries q.index⟩

instance : Renamable MappingId := ⟨MappingId.rename, fun F i => F.address .mappings i.index⟩

instance : Renamable Context := ⟨Context.rename, Context.Within⟩

instance : Renamable Executable := ⟨Executable.rename, Executable.Within⟩

instance : Renamable QueryType := ⟨QueryType.rename, QueryType.Within⟩

instance : Renamable Frame := ⟨Frame.rename, Frame.Within⟩

instance : Renamable Stream := ⟨Stream.rename, Stream.Within⟩

instance : Renamable Projection := ⟨Projection.rename, Projection.Within⟩

instance : Renamable Mapped := ⟨Mapped.rename, fun _ _ => True⟩

instance : Renamable Term := ⟨Term.rename, fun _ _ => True⟩

instance : Renamable Operand := ⟨Operand.rename, fun _ _ => True⟩

instance : Renamable Literal := ⟨Literal.rename, fun _ _ => True⟩

instance : Renamable Select := ⟨Select.rename, fun _ _ => True⟩

instance : Renamable Statement := ⟨Statement.rename, fun _ _ => True⟩

instance : Renamable Rendered := ⟨Rendered.rename, fun _ _ => True⟩

instance : Renamable Unit := .inert _

instance : Renamable Bool := .inert _

instance : Renamable String := .inert _

instance : Renamable (List Char) := .inert _

instance : Renamable Binary64 := .inert _

instance : Renamable Int := .inert _

instance : Renamable Bound := .inert _

instance : Renamable Relationship := .inert _

instance {α : Type} [Renamable α] : Renamable (Option α) :=
  ⟨fun ρ => Option.map (rename ρ), fun F x => ∀ a, x = some a → Within F a⟩

instance {α : Type} [Renamable α] : Renamable (List α) :=
  ⟨fun ρ => List.map (rename ρ), fun F xs => ∀ a ∈ xs, Within F a⟩

instance {α β : Type} [Renamable α] [Renamable β] : Renamable (α × β) :=
  ⟨fun ρ x => (rename ρ x.1, rename ρ x.2), fun F x => Within F x.1 ∧ Within F x.2⟩

instance {α : Type} [Renamable α] : Renamable (Except Error α) :=
  ⟨fun ρ => Except.map (rename ρ), fun F x => ∀ a, x = .ok a → Within F a⟩

/-- The same up to a renaming, and within a footprint. -/
structure Counterpart (ρ : Renaming) (F : Footprint) {α : Type} [Renamable α] (a b : α) : Prop where
  eq : b = rename ρ a
  within : Within F a

variable {ρ : Renaming} {F : Footprint}

@[simp] theorem renamable_value (v : Value) : rename ρ v = v.rename ρ := rfl

/-! ### Stores -/

/-- Two stores agree on the footprint, and have their next addresses in step. -/
structure StoredAlike (ρ : Renaming) (F : Footprint) (space : Space) {α : Type} [Renamable α]
    (xs ys : List α) : Prop where
  next : ∀ k, ρ.address space (xs.length + k) = ys.length + k
  ahead : ∀ k, F.address space (xs.length + k)
  content : ∀ {i}, F.address space i → Counterpart ρ F xs[i]? ys[ρ.address space i]?

namespace StoredAlike

variable {space : Space} {α : Type} [Renamable α] {xs ys : List α}

theorem length_lt (h : StoredAlike ρ F space xs ys) {i : Nat} (hi : F.address space i) :
    ρ.address space i < ys.length ↔ i < xs.length := by
  rw [← not_iff_not, Nat.not_lt, Nat.not_lt, ← List.getElem?_eq_none_iff, (h.content hi).eq,
    ← List.getElem?_eq_none_iff]
  exact Option.map_eq_none_iff

theorem append (h : StoredAlike ρ F space xs ys) {x : α} (hx : Within F x) :
    StoredAlike ρ F space (xs ++ [x]) (ys ++ [rename ρ x]) where
  next k := by
    have := h.next (1 + k)
    simp only [List.length_append, List.length_singleton, Nat.add_assoc]
    exact this
  ahead k := by
    have := h.ahead (1 + k)
    simpa only [List.length_append, List.length_singleton, Nat.add_assoc] using this
  content {i} hi := by
    rcases Nat.lt_or_ge i xs.length with below | above
    · have here := h.length_lt hi
      rw [List.getElem?_append_left below, List.getElem?_append_left (here.mpr below)]
      exact h.content hi
    · obtain ⟨k, rfl⟩ := Nat.exists_eq_add_of_le above
      rw [h.next, List.getElem?_append_right (Nat.le_add_right _ _),
        List.getElem?_append_right (Nat.le_add_right _ _), Nat.add_sub_cancel_left,
        Nat.add_sub_cancel_left]
      cases k with
      | zero => exact ⟨rfl, fun a ha => by cases ha; exact hx⟩
      | succ k => exact ⟨rfl, fun a ha => by cases ha⟩

theorem set (h : StoredAlike ρ F space xs ys) (i : Nat) {x : α} (hx : Within F x) :
    StoredAlike ρ F space (xs.set i x) (ys.set (ρ.address space i) (rename ρ x)) where
  next k := by simpa using h.next k
  ahead k := by simpa using h.ahead k
  content {j} hj := by
    by_cases same : i = j
    · subst same
      rw [List.getElem?_set_self', List.getElem?_set_self', (h.content hj).eq]
      refine ⟨by cases xs[i]? <;> rfl, fun a ha => ?_⟩
      obtain ⟨_, _, rfl⟩ := Option.map_eq_some_iff.mp ha
      exact hx
    · rw [List.getElem?_set_ne same, List.getElem?_set_ne (mt ρ.address_inj.mp same)]
      exact h.content hj

end StoredAlike

/-- Values of the footprint may lead to query contexts. -/
class Footprint.Contextual (F : Footprint) : Prop where
  exists_context : ∃ i, F.address .contexts i

/-- Two equally deep stacks of construction frames. If `framed`, the builders of their innermost
frames are counterparts, and the frames themselves if values may lead to query contexts. No other
frame is ever looked at. -/
structure StackAlike (framed : Bool) (ρ : Renaming) (F : Footprint) (fs gs : List Frame) :
    Prop where
  depth : gs.length = fs.length
  builder : framed = true →
    Counterpart ρ F (fs.head?.map Frame.builder) (gs.head?.map Frame.builder)
  top : framed = true → F.Contextual → Counterpart ρ F fs.head? gs.head?

theorem StackAlike.push {framed : Bool} {fs gs : List Frame} (h : StackAlike framed ρ F fs gs)
    {f : Frame} (hf : f.Within F) : StackAlike true ρ F (f :: fs) (f.rename ρ :: gs) where
  depth := by simp [h.depth]
  builder _ := ⟨by cases f; rfl, fun b hb => by cases hb; exact hf.builder⟩
  top _ _ := ⟨rfl, fun g hg => by cases hg; exact hf⟩

theorem StackAlike.empty : StackAlike true ρ F [] [] :=
  ⟨rfl, fun _ => ⟨rfl, fun _ h => by cases h⟩, fun _ _ => ⟨rfl, fun _ h => by cases h⟩⟩

/-- Two machines agree on the footprint, and what they make next are counterparts. Their query
contexts need not correspond if no value leads to any. -/
structure StoresAlike (ρ : Renaming) (F : Footprint) (m m' : Machine) : Prop where
  settings : m'.settings = m.settings
  next : ∀ k, ρ.number (m.next + k) = m'.next + k
  globals : ∀ {name}, F.globals name →
    Counterpart ρ F (m.globals.lookup name) (m'.globals.lookup name)
  refs : StoredAlike ρ F .refs m.refs m'.refs
  contexts : F.Contextual → StoredAlike ρ F .contexts m.contexts m'.contexts
  queries : StoredAlike ρ F .queries m.queries m'.queries
  mappings : StoredAlike ρ F .mappings m.mappings m'.mappings

structure Alike (framed : Bool) (ρ : Renaming) (F : Footprint) (m m' : Machine) : Prop
    extends StoresAlike ρ F m m' where
  stack : StackAlike framed ρ F m.stack m'.stack

namespace StoresAlike

variable {m m' : Machine} (h : StoresAlike ρ F m m')

include h

theorem ref? {r : RefId} (hr : F.address .refs r.index) :
    Counterpart ρ F (m.ref? r) (m'.ref? (r.rename ρ)) := by
  obtain ⟨eq, within⟩ := h.refs.content hr
  refine ⟨?_, fun v hv => ?_⟩
  · unfold Machine.ref? RefId.rename
    rw [eq]
    rcases m.refs[r.index]? with _ | _ | v <;> rfl
  · exact within (some v) (Option.join_eq_some_iff.mp hv) v rfl

theorem context? {c : ContextId} (hc : F.address .contexts c.index) :
    Counterpart ρ F (m.context? c) (m'.context? (c.rename ρ)) :=
  (h.contexts ⟨_, hc⟩).content hc

theorem query? {q : QueryId} (hq : F.address .queries q.index) :
    Counterpart ρ F (m.query? q) (m'.query? (q.rename ρ)) :=
  h.queries.content hq

theorem mapping {i : MappingId} (hi : F.address .mappings i.index) :
    Counterpart ρ F (m.mapping i) (m'.mapping (i.rename ρ)) := by
  obtain ⟨eq, within⟩ := h.mappings.content hi
  unfold Machine.mapping MappingId.rename
  rw [eq]
  rcases hm : m.mappings[i.index]? with _ | fields
  · exact ⟨rfl, fun x hx => by cases hx⟩
  · exact ⟨rfl, within fields hm⟩

end StoresAlike

end FluentQuery
