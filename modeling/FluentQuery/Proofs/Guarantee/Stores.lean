import FluentQuery.Proofs.Guarantee.Programs

/-! Two relations between the stores of a machine and a later one: what is bound or told
stays so, and whatever is numbered or stored gets a number or an address of its own. -/

namespace FluentQuery

/-- What a relation says about a computation holds of the machines of a run of it. -/
theorem Keeps.of_exec {R : Machine → Machine → Prop} {α : Type} {x : Run α} (h : Keeps R x)
    {m m' : Machine} {r : Except Error α} (hx : exec x m = (r, m')) : R m m' := by
  rw [← after_eq hx]
  exact h m

/-- Query contexts are as they were, and bound Refs hold what they held. -/
structure Undisturbed (m m' : Machine) : Prop where
  context : ∀ c x, m.context? c = some x → m'.context? c = some x
  ref : ∀ r v, m.ref? r = some v → m'.ref? r = some v

namespace Undisturbed

theorem refl (m : Machine) : Undisturbed m m := ⟨fun _ _ h => h, fun _ _ h => h⟩

theorem trans {a b c : Machine} (hab : Undisturbed a b) (hbc : Undisturbed b c) :
    Undisturbed a c :=
  ⟨fun i x h => hbc.context i x (hab.context i x h), fun r v h => hbc.ref r v (hab.ref r v h)⟩

instance : Inert Undisturbed where
  refl := refl
  trans := trans
  fresh _ := ⟨fun _ _ h => h, fun _ _ h => h⟩
  newMapping _ _ := ⟨fun _ _ h => h, fun _ _ h => h⟩
  log _ _ := ⟨fun _ _ h => h, fun _ _ h => h⟩
  handle _ _ := ⟨fun _ _ h => h, fun _ _ h => h⟩

end Undisturbed

/-- Numbers are not given twice, and no Ref is lost. -/
structure Growing (m m' : Machine) : Prop where
  next : m.next ≤ m'.next
  refs : m.refs.length ≤ m'.refs.length

namespace Growing

theorem of_eq {m m' : Machine} (hn : m'.next = m.next) (hr : m'.refs = m.refs) :
    Growing m m' :=
  ⟨Nat.le_of_eq hn.symm, Nat.le_of_eq (congrArg List.length hr.symm)⟩

instance : Inert Growing where
  refl _ := of_eq rfl rfl
  trans hab hbc := ⟨Nat.le_trans hab.next hbc.next, Nat.le_trans hab.refs hbc.refs⟩
  fresh _ := ⟨Nat.le_succ _, Nat.le_refl _⟩
  newMapping _ _ := of_eq rfl rfl
  log _ _ := of_eq rfl rfl
  handle _ _ := of_eq rfl rfl

theorem blind (m : Machine) (contexts : List Context) : Growing m { m with contexts } :=
  of_eq rfl rfl

instance : Creating Growing where
  newRef m := ⟨Nat.le_refl _, by simp [after, RefId.new]⟩
  bind r v m := by
    rw [after, exec_bindRef]
    split
    · exact of_eq rfl rfl
    · exact ⟨Nat.le_refl _, by simp⟩
  unbind r m := ⟨Nat.le_refl _, by simp [after, RefId.unbind]⟩
  newContext _ _ := of_eq rfl rfl
  updateMapping _ _ _ := of_eq rfl rfl
  newQuery _ _ := of_eq rfl rfl
  writeQuery _ _ _ := of_eq rfl rfl
  note _ _ := of_eq rfl rfl
  setGlobal _ _ _ := of_eq rfl rfl
  onStack stack body hb m := by
    rw [after, exec_onStack]
    have inner := hb { m with stack }
    exact ⟨inner.next, inner.refs⟩

instance : Guarantee Growing := .of_blind blind

end Growing

end FluentQuery
