import FluentQuery.Proofs.Renaming.Context
import FluentQuery.Proofs.Renaming.Machine
import FluentQuery.Proofs.Guarantee.Steps

/-! What a query context says of itself. Of a subquery that is all but its parent, which plays no part
in the operations on it nor in its statement. -/

namespace FluentQuery

open Sql

variable {ρ : Renaming} {F : Footprint}

/-! ### Query contexts without their parents -/

def ContextKind.orphaned : ContextKind → ContextKind
  | subquery b _ correlated conditions => subquery b .null correlated conditions
  | k => k

namespace ContextKind

@[simp] theorem body?_orphaned (k : ContextKind) : k.orphaned.body? = k.body? := by
  cases k <;> rfl

@[simp] theorem withBody_orphaned (k : ContextKind) (b : SelectBody) :
    k.orphaned.withBody b = (k.withBody b).orphaned := by
  cases k <;> rfl

@[simp] theorem className_orphaned (k : ContextKind) : k.orphaned.className = k.className := by
  cases k <;> rfl

theorem orphaned_rename (k : ContextKind) : (k.rename ρ).orphaned = k.orphaned.rename ρ := by
  cases k <;> rfl

theorem Within.orphaned {k : ContextKind} (h : k.Within F) : k.orphaned.Within F := by
  cases k with
  | subquery b parent correlated conditions => exact ⟨h.1, trivial, h.2.2⟩
  | _ => exact h

end ContextKind

namespace Context

/-- What a context says of itself: all but the parent of a subquery. -/
def orphaned (x : Context) : Context := { x with kind := x.kind.orphaned }

/-- The restriction of a context, and nothing else. -/
def bare (x : Context) : Context := { x with kind := .common }

section Orphaned

variable (x : Context)

@[simp] theorem restriction_orphaned : x.orphaned.restriction = x.restriction := rfl

@[simp] theorem body?_orphaned : x.orphaned.kind.body? = x.kind.body? := x.kind.body?_orphaned

@[simp] theorem className_orphaned : x.orphaned.kind.className = x.kind.className :=
  x.kind.className_orphaned

@[simp] theorem isSelecting_orphaned : x.orphaned.isSelecting = x.isSelecting := by
  simp [isSelecting]

@[simp] theorem isQuery_orphaned : x.orphaned.isQuery = x.isQuery := by
  obtain ⟨restriction, kind⟩ := x
  cases kind <;> rfl

@[simp] theorem isSubquery_orphaned : x.orphaned.isSubquery = x.isSubquery := by
  obtain ⟨restriction, kind⟩ := x
  cases kind <;> rfl

@[simp] theorem isUpdate_orphaned : x.orphaned.isUpdate = x.isUpdate := by
  obtain ⟨restriction, kind⟩ := x
  cases kind <;> rfl

@[simp] theorem target?_orphaned : x.orphaned.target? = x.target? := by
  obtain ⟨restriction, kind⟩ := x
  cases kind <;> rfl

@[simp] theorem correlates_orphaned (root : Value) :
    x.orphaned.correlates root = x.correlates root := by
  obtain ⟨restriction, kind⟩ := x
  cases kind <;> rfl

@[simp] theorem nested_orphaned (m : Machine) : x.orphaned.nested m = x.nested m := by
  obtain ⟨restriction, kind⟩ := x
  cases kind <;> rfl

end Orphaned

theorem orphaned_rename (x : Context) : (x.rename ρ).orphaned = x.orphaned.rename ρ :=
  congrArg (Context.mk _) x.kind.orphaned_rename

theorem Within.orphaned {x : Context} (h : x.Within F) : x.orphaned.Within F :=
  ⟨h.restriction, h.kind.orphaned⟩

/-! ### Operations on part of a context -/

/-- On what `view` shows of a context, the operation does what it does on the whole. -/
def Through (view : Context → Context) (f : Context → Except Error Context) : Prop :=
  ∀ x, f (view x) = (f x).map view

/-- Like `Through`, for operations that also give a value. -/
def GivesThrough (view : Context → Context) (f : Context → Except Error (Value × Context)) : Prop :=
  ∀ x, f (view x) = (f x).map fun y => (y.1, view y.2)

theorem updateBody_through (f : SelectBody → SelectBody) : Through orphaned (·.updateBody f) := by
  intro x
  simp only [updateBody, body?_orphaned]
  cases x.kind.body? with
  | none => rfl
  | some b => simp [orphaned, Except.map]

/-- Whatever an operation tells a subquery, its parent plays no part in it. -/
theorem Change.through {f : Context → Except Error Context} (hf : Change f) :
    Through orphaned f := by
  cases hf with
  | restrict r =>
    intro x
    simp only [Context.restrict]
    split <;> rfl
  | groupBy items => exact updateBody_through _
  | distinct v => exact updateBody_through _
  | having r =>
    intro x
    have body := updateBody_through (fun b => { b with having := r }) x
    simp only [Context.having, isSelecting_orphaned]
    split
    · rfl
    · exact body
  | select v =>
    intro x
    have body := updateBody_through (fun b => { b with selection := v }) x
    simp only [Context.select, isSelecting_orphaned]
    split
    · rfl
    · exact body
  | orderBy items =>
    rintro ⟨restriction, kind⟩
    cases kind <;> rfl
  | correlate root =>
    rintro ⟨restriction, kind⟩
    cases kind with
    | subquery b parent correlated conditions =>
      simp only [Context.correlate, orphaned, ContextKind.orphaned]
      split
      · rfl
      split <;> rfl
    | _ => rfl
  | assign key v =>
    rintro ⟨restriction, kind⟩
    cases kind <;> rfl

theorem restriction_bare (x : Context) : x.bare.restriction = x.restriction := rfl

theorem restrict_through_bare (r : Value) : Through bare (·.restrict r) := by
  intro x
  simp only [restrict]
  split <;> rfl

/-- An operation that gives a value which stays the same. -/
theorem Through.giving {view : Context → Context} {f : Context → Except Error Context}
    (h : Through view f) (v : Value) : GivesThrough view fun x => (f x).map (v, ·) := by
  intro x
  simp only [h x]
  cases f x <;> rfl

theorem addRoot_through (fresh : Nat) (entity : Value) :
    GivesThrough orphaned (·.addRoot fresh entity) := by
  intro x
  have grown (v : Value) :=
    (updateBody_through (fun b => { b with roots := b.roots ++ [v] })).giving v x
  dsimp only [addRoot]
  rw [body?_orphaned, isSubquery_orphaned]
  cases x.kind.body? with
  | none => rfl
  | some b =>
    dsimp only
    split
    · rfl
    split
    · exact grown entity
    cases aliasOf? fresh entity with
    | none => rfl
    | some m => exact grown (.mapped m)

theorem join_through (fresh : Nat) (correlated : Bool) (owner : Mapped) (r : Relationship)
    (outer : Value) (truth : Option Bool) :
    GivesThrough orphaned (·.join fresh correlated owner r outer truth) := by
  cases correlated with
  | false => exact (updateBody_through _).giving _
  | true =>
    rintro ⟨restriction, kind⟩
    cases kind with
    | subquery b parent roots conditions =>
      rcases truth with _ | _ | _
      · rfl
      · cases link : r.link <;> simp [join, orphaned, ContextKind.orphaned, link, Except.map]
      · rfl
    | _ => rfl

/-! ### Contexts that say the same -/

/-- What `view` shows of two contexts are counterparts. -/
def Seen (view : Context → Context) (ρ : Renaming) (F : Footprint) (x y : Context) : Prop :=
  Counterpart ρ F (view x) (view y)

/-- Two contexts are counterparts but for their parents. -/
abbrev Kin (ρ : Renaming) (F : Footprint) (x y : Context) : Prop := Seen orphaned ρ F x y

namespace Kin

variable {x y : Context} (h : Kin ρ F x y)

include h

/-- What is not changed by taking the parent away, and does not depend on numbers, is the same. -/
theorem agree {α : Type} {f : Context → α} (orphaned : ∀ x, f x.orphaned = f x)
    (renamed : ∀ x, f (x.rename ρ) = f x) : f y = f x := by
  rw [← orphaned y, h.eq]
  exact (renamed _).trans (orphaned x)

theorem isQuery : y.isQuery = x.isQuery := h.agree isQuery_orphaned isQuery_rename

theorem isSubquery : y.isSubquery = x.isSubquery := h.agree isSubquery_orphaned isSubquery_rename

theorem isUpdate : y.isUpdate = x.isUpdate := h.agree isUpdate_orphaned isUpdate_rename

theorem isSelecting : y.isSelecting = x.isSelecting :=
  h.agree isSelecting_orphaned isSelecting_rename

theorem className : y.kind.className = x.kind.className :=
  h.agree (f := fun x => x.kind.className) className_orphaned fun x => x.kind.className_rename

theorem restriction : Counterpart ρ F x.restriction y.restriction :=
  ⟨congrArg Context.restriction h.eq, h.within.restriction⟩

theorem body? : y.kind.body? = x.kind.body?.map (SelectBody.rename ρ) := by
  rw [← body?_orphaned y, h.eq, ← body?_orphaned x]
  exact x.orphaned.kind.body?_rename

theorem body?_within {b : SelectBody} (hb : x.kind.body? = some b) : b.Within F :=
  h.within.kind.body (x.body?_orphaned.trans hb)

theorem target? : Counterpart ρ F x.target? y.target? := by
  refine ⟨?_, fun v hv => target?_within h.within (x.target?_orphaned.trans hv)⟩
  rw [← y.target?_orphaned, h.eq, ← x.target?_orphaned]
  exact x.orphaned.target?_rename

theorem correlates (root : Value) : y.correlates (root.rename ρ) = x.correlates root := by
  rw [← y.correlates_orphaned, h.eq, ← x.correlates_orphaned]
  exact x.orphaned.correlates_rename root

end Kin

/-- Two contexts restricted alike. -/
theorem Seen.restriction {view : Context → Context}
    (shows : ∀ x, (view x).restriction = x.restriction) {x y : Context} (h : Seen view ρ F x y) :
    Counterpart ρ F x.restriction y.restriction := by
  refine ⟨?_, ?_⟩
  · rw [← shows y, h.eq, ← shows x]
    rfl
  · rw [← shows x]
    exact h.within.restriction

end Context

end FluentQuery
