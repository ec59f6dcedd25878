import FluentQuery.Proofs.Isolation.Aliases

/-! What query contexts list. A call that succeeds enters a root, a join or a correlated root; nothing
else changes what is listed. But for the first root of a query that is no subquery, each root and
each join target is an alias made by the call that enters it. -/

namespace FluentQuery

open Sql

/-! ### Listings -/

/-- What a query lists: its roots, the targets of its joins, and what it is correlated with. Of a
nested query every root is a new alias. -/
structure Listing where
  nested : Bool
  roots : List Value
  targets : List Mapped
  correlated : List Value

namespace Listing

/-- What a call enters: a root for an entity, the target of a join, which is a root if the join is
from a correlated root, or a root of an enclosing query. -/
inductive Item
  | root (entity root : Value)
  | join (correlated : Bool) (target : Mapped)
  | correlate (root : Value)

def blank (nested : Bool) : Listing := ⟨nested, [], [], []⟩

/-- Everything is entered behind the rest; what is correlated already is not entered again. -/
def enter (l : Listing) : Item → Listing
  | .root _ root => { l with roots := l.roots ++ [root] }
  | .join true target => { l with roots := l.roots ++ [.mapped target] }
  | .join false target => { l with targets := l.targets ++ [target] }
  | .correlate root =>
    if l.correlated.any root.same then l else { l with correlated := l.correlated ++ [root] }

/-- The roots and the join targets. -/
def objects (l : Listing) : List Value := l.roots ++ l.targets.map .mapped

/-- The roots and the join targets, less the first root of a query that is not nested. -/
def created (l : Listing) : List Value :=
  (if l.nested then l.roots else l.roots.tail) ++ l.targets.map .mapped

/-- The next root is the object it is asked for. -/
def TakesEntity (l : Listing) : Prop := l.nested = false ∧ l.roots = []

instance (l : Listing) : Decidable l.TakesEntity := inferInstanceAs (Decidable (_ ∧ _))

namespace Item

/-- What a call can enter where this is listed, if `next` is the next number to be given away. -/
def Proper (l : Listing) (next : Nat) : Item → Prop
  | .root entity given =>
    if l.TakesEntity then given = entity else ∃ e, given = .mapped ⟨e, some next⟩
  | .join correlated target => target.alias? = some next ∧ (correlated → l.nested)
  | .correlate _ => l.nested

/-- The object a root is entered for. -/
def entity? : Item → Option Value
  | .root entity _ => some entity
  | _ => none

/-- The root or the join target that is entered. -/
def object? : Item → Option Value
  | .root _ given => some given
  | .join _ target => some (.mapped target)
  | .correlate _ => none

end Item

variable {l : Listing} {item : Item} {next : Nat}

@[simp] theorem created_blank (nested : Bool) : (blank nested).created = [] := by
  cases nested <;> rfl

theorem objects_eq_created (h : l.nested = true) : l.objects = l.created := by
  rw [objects, created, if_pos h]

/-- Whatever is listed was created, but for the first root of a query that is not nested. -/
theorem mem_created {v : Value} (h : v ∈ l.objects) :
    v ∈ l.created ∨ l.nested = false ∧ l.roots.head? = some v := by
  obtain ⟨nested, roots, targets, correlated⟩ := l
  rcases List.mem_append.mp h with root | target
  · cases nested with
    | true => exact .inl (List.mem_append_left _ root)
    | false =>
      cases roots with
      | nil => cases root
      | cons first rest =>
        rcases List.mem_cons.mp root with rfl | later
        · exact .inr ⟨rfl, rfl⟩
        · exact .inl (List.mem_append_left _ later)
  · exact .inl (List.mem_append_right _ target)

@[simp] theorem enter_nested (l : Listing) (item : Item) : (l.enter item).nested = l.nested := by
  unfold enter
  split
  any_goals rfl
  split <;> rfl

/-- What is listed here is listed there, in front of what came later. -/
structure Grows (l l' : Listing) : Prop where
  nested : l'.nested = l.nested
  roots : l.roots <+: l'.roots
  targets : l.targets <+: l'.targets
  correlated : l.correlated <+: l'.correlated

namespace Grows

theorem refl (l : Listing) : l.Grows l :=
  ⟨rfl, List.prefix_refl _, List.prefix_refl _, List.prefix_refl _⟩

theorem trans {l₁ l₂ l₃ : Listing} (h : l₁.Grows l₂) (h' : l₂.Grows l₃) : l₁.Grows l₃ where
  nested := h'.nested.trans h.nested
  roots := h.roots.trans h'.roots
  targets := h.targets.trans h'.targets
  correlated := h.correlated.trans h'.correlated

end Grows

theorem grows_enter (l : Listing) (item : Item) : l.Grows (l.enter item) := by
  unfold enter
  split
  · exact { Grows.refl l with roots := List.prefix_append _ _ }
  · exact { Grows.refl l with roots := List.prefix_append _ _ }
  · exact { Grows.refl l with targets := List.prefix_append _ _ }
  · split
    · exact .refl l
    · exact { Grows.refl l with correlated := List.prefix_append _ _ }

/-- A root that is no entity comes before the join targets. -/
theorem created_root {v : Value} (h : ¬l.TakesEntity) :
    ({ l with roots := l.roots ++ [v] } : Listing).created.Perm (v :: l.created) := by
  obtain ⟨nested, roots, targets, correlated⟩ := l
  have inserted (before : List Value) :
      ((before ++ [v]) ++ targets.map Value.mapped).Perm (v :: (before ++ targets.map Value.mapped)) := by
    rw [List.append_assoc]
    exact List.perm_middle
  cases nested with
  | true => exact inserted roots
  | false =>
    cases roots with
    | nil => exact absurd ⟨rfl, rfl⟩ h
    | cons first rest => exact inserted rest

/-- An item creates nothing, or it is an alias that is given the next number. -/
theorem created_enter (h : item.Proper l next) :
    (l.enter item).created = l.created ∨ ∃ e, item.object? = some (.mapped ⟨e, some next⟩) ∧
      (l.enter item).created.Perm (.mapped ⟨e, some next⟩ :: l.created) := by
  cases item with
  | root entity root =>
    by_cases first : l.TakesEntity
    · left
      obtain ⟨nested, empty⟩ := first
      simp [enter, created, nested, empty]
    · obtain ⟨e, rfl⟩ := by simpa only [Item.Proper, first, ↓reduceIte] using h
      exact .inr ⟨e, rfl, created_root first⟩
  | join correlated target =>
    obtain ⟨e, a⟩ := target
    obtain ⟨rfl, nested⟩ := h
    cases correlated with
    | true => exact .inr ⟨e, rfl, created_root fun first => by simp [first.1] at nested⟩
    | false =>
      refine .inr ⟨e, rfl, ?_⟩
      simp only [enter, created, List.map_append, List.map_cons, List.map_nil, ← List.append_assoc]
      exact List.perm_append_singleton _ _
  | correlate root =>
    left
    unfold enter
    dsimp only
    split <;> rfl

/-- The first root of a query that is not nested is the first object it was asked a root for. -/
theorem head?_roots_enter (hn : l.nested = false) (h : item.Proper l next) :
    (l.enter item).roots.head? = l.roots.head?.or item.entity? := by
  cases item with
  | root entity root =>
    cases hr : l.roots with
    | nil =>
      have first : l.TakesEntity := ⟨hn, hr⟩
      obtain rfl := by simpa only [Item.Proper, first, ↓reduceIte] using h
      simp [enter, hr, Item.entity?]
    | cons r rs => simp [enter, hr]
  | join correlated target =>
    cases correlated with
    | true => exact absurd (h.2 rfl) (by simp [hn])
    | false => simp [enter, Item.entity?]
  | correlate root => exact absurd (show l.nested = true from h) (by simp [hn])

/-- What is correlated are distinct objects. -/
theorem pairwise_correlated_enter (h : l.correlated.Pairwise fun r s => ¬s.same r) :
    (l.enter item).correlated.Pairwise fun r s => ¬s.same r := by
  unfold enter
  split
  any_goals exact h
  rename_i root
  split
  · exact h
  · rename_i new
    refine List.pairwise_append.mpr ⟨h, List.pairwise_singleton _ _, fun r hr s hs => ?_⟩
    obtain rfl := List.mem_singleton.mp hs
    exact fun same => new (List.any_eq_true.mpr ⟨r, hr, same⟩)

/-- What came of these items, oldest first: everything stands where it was entered, the first root
of a query that is not nested is the first object it was asked a root for, and no object is
correlated twice. -/
structure Records (l : Listing) (items : List Item) : Prop where
  entered : l = items.foldl enter (.blank l.nested)
  first : l.nested = false → l.roots.head? = items.findSome? Item.entity?
  distinct : l.correlated.Pairwise fun r s => ¬s.same r

theorem Records.blank (nested : Bool) : (Listing.blank nested).Records [] :=
  ⟨rfl, fun _ => rfl, .nil⟩

theorem Records.enter {items : List Item} (h : l.Records items) (proper : item.Proper l next) :
    (l.enter item).Records (items ++ [item]) where
  entered := by
    rw [List.foldl_append, enter_nested, ← h.entered]
    rfl
  first nested := by
    rw [enter_nested] at nested
    rw [head?_roots_enter nested proper, h.first nested, List.findSome?_append]
    cases item <;> rfl
  distinct := pairwise_correlated_enter h.distinct

end Listing

/-! ### Query contexts -/

namespace Context

variable {x y : Context} {fresh : Nat}

/-- The roots of enclosing queries a subquery is correlated with. -/
def correlated (x : Context) : List Value :=
  match x.kind with
  | .subquery _ _ roots _ => roots
  | _ => []

def listing (x : Context) : Listing where
  nested := x.isSubquery
  roots := x.kind.body?.elim [] (·.roots)
  targets := x.kind.body?.elim [] (·.joins.map (·.target))
  correlated := x.correlated

theorem Blank.listing (h : x.Blank) : x.listing = .blank x.isSubquery := by
  cases h <;> rfl

theorem listing_updateBody {f : SelectBody → SelectBody} (h : x.updateBody f = .ok y) :
    ∃ b, x.listing = ⟨x.isSubquery, b.roots, b.joins.map (·.target), x.correlated⟩ ∧
      y.listing = ⟨x.isSubquery, (f b).roots, (f b).joins.map (·.target), x.correlated⟩ := by
  obtain ⟨b, hb, rfl⟩ := updateBody_eq_ok.mp h
  obtain ⟨restriction, kind⟩ := x
  refine ⟨b, ?_⟩
  cases kind <;> cases hb <;> exact ⟨rfl, rfl⟩

theorem isNull_of_addRoot {entity root : Value} (h : x.addRoot fresh entity = .ok (root, y)) :
    entity.isNull = false := (addRoot_eq_ok h).1

theorem addRoot_listing {entity root : Value} (h : x.addRoot fresh entity = .ok (root, y)) :
    (Listing.Item.root entity root).Proper x.listing fresh ∧
      y.listing = x.listing.enter (.root entity root) := by
  obtain ⟨-, updated, b, hb, made⟩ := addRoot_eq_ok h
  obtain ⟨b', hx, hy⟩ := listing_updateBody updated
  refine ⟨?_, by rw [hy, hx]; rfl⟩
  have takes : x.listing.TakesEntity ↔ b.roots = [] ∧ x.isSubquery = false := by
    simp [Listing.TakesEntity, listing, hb, and_comm]
  unfold Listing.Item.Proper
  simp only [takes]
  split at made
  · rename_i first
    rwa [if_pos first]
  · rename_i later
    rw [if_neg later]
    obtain ⟨⟨e, a⟩, ho, rfl⟩ := made
    obtain rfl := aliasOf?_alias ho
    exact ⟨e, rfl⟩

theorem join_listing {correlated : Bool} {owner : Mapped} {r : Relationship} {outer v : Value}
    {truth : Option Bool} (h : x.join fresh correlated owner r outer truth = .ok (v, y)) :
    v = .mapped ⟨r.target, some fresh⟩ ∧
      (Listing.Item.join correlated ⟨r.target, some fresh⟩).Proper x.listing fresh ∧
      y.listing = x.listing.enter (.join correlated ⟨r.target, some fresh⟩) := by
  obtain ⟨rfl, joined⟩ := join_eq_ok h
  refine ⟨rfl, ?_⟩
  cases joined with
  | planned target hy =>
    obtain rfl := target
    obtain ⟨b, hx, hy⟩ := listing_updateBody hy
    refine ⟨⟨rfl, by simp⟩, ?_⟩
    rw [hy, hx]
    simp [Listing.enter]
  | correlated target hk =>
    obtain rfl := target
    refine ⟨⟨rfl, fun _ => ?_⟩, ?_⟩ <;>
      simp [listing, isSubquery, hk, Listing.enter, Context.correlated, ContextKind.body?]

theorem correlate_listing (fresh : Nat) {root : Value} (h : x.correlate root = .ok y) :
    (Listing.Item.correlate root).Proper x.listing fresh ∧
      y.listing = x.listing.enter (.correlate root) := by
  obtain ⟨b, parent, roots, conditions, hk, rfl⟩ := correlate_eq_ok h
  have nested : x.listing.nested = true := by simp [listing, isSubquery, hk]
  have correlated : x.listing.correlated = roots := by simp [listing, Context.correlated, hk]
  refine ⟨nested, ?_⟩
  rw [Listing.enter, correlated]
  split <;> simp [listing, isSubquery, Context.correlated, ContextKind.body?, hk]

/-- What a configuration tells a query context without a new alias leaves what is listed. -/
theorem Tell.listing {f : Context → Except Error Context} (hf : Tell f) (h : f x = .ok y) :
    y.listing = x.listing := by
  have body {g : SelectBody → SelectBody} (h : x.updateBody g = .ok y)
      (hg : ∀ b, (g b).roots = b.roots ∧ (g b).joins = b.joins) : y.listing = x.listing := by
    obtain ⟨b, hx, hy⟩ := listing_updateBody h
    rw [hx, hy, (hg b).1, (hg b).2]
  cases hf with
  | restrict r =>
    obtain ⟨-, rfl⟩ := restrict_eq_ok h
    rfl
  | groupBy items => exact body h fun _ => ⟨rfl, rfl⟩
  | having r => exact body (having_eq_ok h) fun _ => ⟨rfl, rfl⟩
  | distinct v => exact body h fun _ => ⟨rfl, rfl⟩
  | select v => exact body (select_eq_ok h).2 fun _ => ⟨rfl, rfl⟩
  | orderBy items =>
    obtain ⟨b, orders, hk, rfl⟩ := orderBy_eq_ok h
    simp [Context.listing, isSubquery, Context.correlated, ContextKind.body?, hk]
  | assign key v =>
    obtain ⟨target, fields, hk, rfl⟩ := assign_eq_ok h
    simp [Context.listing, isSubquery, Context.correlated, ContextKind.body?, hk]

/-- An operation that creates nothing correlates, or leaves what is listed. -/
theorem Change.listing {f : Context → Except Error Context} (hf : Change f) (h : f x = .ok y) :
    (∃ root, f = (·.correlate root)) ∨ y.listing = x.listing := by
  cases hf with
  | correlate root => exact .inl ⟨root, rfl⟩
  | restrict r => exact .inr ((Tell.restrict r).listing h)
  | groupBy items => exact .inr ((Tell.groupBy items).listing h)
  | having r => exact .inr ((Tell.having r).listing h)
  | distinct v => exact .inr ((Tell.distinct v).listing h)
  | select v => exact .inr ((Tell.select v).listing h)
  | orderBy items => exact .inr ((Tell.orderBy items).listing h)
  | assign key v => exact .inr ((Tell.assign key v).listing h)

end Context

end FluentQuery
