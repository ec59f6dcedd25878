import FluentQuery.Proofs.Associations
import FluentQuery.Proofs.Builds
import FluentQuery.Proofs.Order

/-! The SET clauses of an update under construction. Whatever a computation does, it can only add
clauses to those that are there, each in the place of an earlier one for the same attribute. -/

namespace FluentQuery

variable {α β : Type} {m m' m'' : Machine} {c : ContextId} {xs ys : List (String × Value)}

/-! ### Query contexts -/

namespace Context

variable {x y : Context} {v : Value}

/-- The target of an update, and what its attributes are set to. -/
def assignments? (x : Context) : Option (Value × List (String × Value)) :=
  match x.kind with
  | .update target fields => some (target, fields)
  | _ => none

theorem assignments?_updateBody {f : SelectBody → SelectBody} (h : x.updateBody f = .ok y) :
    y.assignments? = x.assignments? := by
  obtain ⟨b, hb, rfl⟩ := updateBody_eq_ok.mp h
  obtain ⟨restriction, kind⟩ := x
  cases kind <;> cases hb <;> rfl

theorem assignments?_addRoot {fresh : Nat} {entity : Value} (h : x.addRoot fresh entity = .ok (v, y)) :
    y.assignments? = x.assignments? :=
  assignments?_updateBody (addRoot_eq_ok h).2.1

theorem assignments?_join {fresh : Nat} {correlated : Bool} {owner : Mapped} {r : Relationship}
    {outer : Value} {truth : Option Bool}
    (h : x.join fresh correlated owner r outer truth = .ok (v, y)) :
    y.assignments? = x.assignments? := by
  obtain ⟨-, joined⟩ := join_eq_ok h
  cases joined with
  | planned _ hy => exact assignments?_updateBody hy
  | correlated _ hk => simp [assignments?, hk]

/-- An operation that creates nothing sets an attribute, or leaves what they are set to. -/
theorem Change.assignments? {f : Context → Except Error Context} (hf : Change f) (h : f x = .ok y) :
    (∃ key u, f = (·.assign key u)) ∨ y.assignments? = x.assignments? := by
  cases hf with
  | assign key u => exact .inl ⟨key, u, rfl⟩
  | restrict r =>
    obtain ⟨-, rfl⟩ := restrict_eq_ok h
    exact .inr rfl
  | groupBy items => exact .inr (assignments?_updateBody h)
  | having r => exact .inr (assignments?_updateBody (having_eq_ok h))
  | distinct u => exact .inr (assignments?_updateBody h)
  | select u => exact .inr (assignments?_updateBody (select_eq_ok h).2)
  | orderBy items =>
    obtain ⟨b, orders, hk, rfl⟩ := orderBy_eq_ok h
    exact .inr (by simp [Context.assignments?, hk])
  | correlate root =>
    obtain ⟨b, parent, roots, conditions, hk, rfl⟩ := correlate_eq_ok h
    exact .inr (by simp [Context.assignments?, hk])

theorem assignments?_assign {key : String} (h : x.assign key v = .ok y) :
    ∃ target fields, x.assignments? = some (target, fields) ∧
      y.assignments? = some (target, assoc key v fields) := by
  obtain ⟨target, fields, hk, rfl⟩ := assign_eq_ok h
  exact ⟨target, fields, by simp [Context.assignments?, hk], rfl⟩

end Context

/-! ### Clauses -/

/-- The target of the update at an address, and what its attributes are set to. -/
def Machine.assignments? (m : Machine) (c : ContextId) : Option (Value × List (String × Value)) :=
  (m.context? c).bind (·.assignments?)

/-- These clauses were added to the update at `c`, in this order. -/
def Sets (c : ContextId) (clauses : List (String × Value)) (m m' : Machine) : Prop :=
  ∀ target fields, m.assignments? c = some (target, fields) →
    m'.assignments? c = some (target, override fields clauses)

namespace Sets

theorem of_contexts (h : m'.contexts = m.contexts) : Sets c [] m m' := by
  intro target fields told
  rwa [Machine.assignments?, Machine.context?, h]

theorem trans (h : Sets c xs m m') (h' : Sets c ys m' m'') : Sets c (xs ++ ys) m m'' := by
  intro target fields told
  rw [override_append]
  exact h' _ _ (h _ _ told)

instance : Inert (Sets c []) := .of_contexts (fun _ => of_contexts) trans

theorem of_set {x y : Context} {d : ContextId} (hx : m.context? d = some x)
    (hy : y.assignments? = x.assignments?) :
    Sets c [] m { m with contexts := m.contexts.set d.index y } := by
  intro target fields told
  by_cases hd : c = d
  · subst hd
    rwa [Machine.assignments?, context?_set hx, Option.bind_some, hy, override_nil,
      ← Option.bind_some (f := Context.assignments?), ← hx]
  · rwa [Machine.assignments?, context?_set_of_ne hd]

/-- The update at this address gets one clause more, any other none. -/
theorem of_assign {x y : Context} {d : ContextId} {key : String} {v : Value}
    (hx : m.context? d = some x) (hy : x.assign key v = .ok y) :
    Sets c (if c = d then [(key, v)] else []) m { m with contexts := m.contexts.set d.index y } := by
  obtain ⟨target, fields, before, behind⟩ := Context.assignments?_assign hy
  intro target' fields' told
  by_cases hd : c = d
  · subst hd
    rw [Machine.assignments?, hx, Option.bind_some, before] at told
    obtain ⟨rfl, rfl⟩ := Prod.mk.inj (Option.some.inj told)
    rw [Machine.assignments?, context?_set hx, Option.bind_some, behind, if_pos rfl]
    rfl
  · rwa [Machine.assignments?, context?_set_of_ne hd, if_neg hd]

end Sets

/-- Nothing but clauses were added to the update at `c`. -/
def Setting (c : ContextId) (m m' : Machine) : Prop := ∃ clauses, Sets c clauses m m'

namespace Setting

theorem of_contexts (h : m'.contexts = m.contexts) : Setting c m m' := ⟨[], .of_contexts h⟩

instance : Inert (Setting c) := by
  refine .of_contexts (fun _ => of_contexts) fun h h' => ?_
  obtain ⟨xs, h⟩ := h
  obtain ⟨ys, h'⟩ := h'
  exact ⟨xs ++ ys, h.trans h'⟩

theorem newContext (x : Context) : Keeps (Setting c) (ContextId.new x) := by
  refine fun m => ⟨[], fun target fields told => ?_⟩
  obtain ⟨y, hy, -⟩ := Option.bind_eq_some_iff.mp told
  have old : c.index < m.contexts.length := (List.getElem?_eq_some_iff.mp hy).1
  have same : (after (ContextId.new x) m).context? c = m.context? c := List.getElem?_append_left old
  rwa [Machine.assignments?, same]

theorem change {d : ContextId} {f : Context → Except Error Context} (hf : Context.Change f) :
    Keeps (Setting c) (d.update f) := by
  refine .update fun hx hy => ?_
  rcases hf.assignments? hy with ⟨key, v, rfl⟩ | same
  · exact ⟨_, .of_assign hx hy⟩
  · exact ⟨[], .of_set hx same⟩

instance : Guarantee (Setting c) where
  toCreating := .of_contexts (fun _ => of_contexts) fun _ => newContext _
  change _ _ := change
  growRoot _ _ := Keeps.bind Inert.fresh fun _ => .updateGet fun hx hy =>
    ⟨[], .of_set hx (Context.assignments?_addRoot hy)⟩
  growJoin _ _ _ _ _ := Keeps.bind Inert.fresh fun _ => Keeps.bind .get fun _ =>
    .updateGet fun hx hy => ⟨[], .of_set hx (Context.assignments?_join hy)⟩

end Setting

end FluentQuery
