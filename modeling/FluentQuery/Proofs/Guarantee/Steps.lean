import FluentQuery.Proofs.Outcome

/-! Guarantees: relations between the machine before a computation and the machine it
leaves, whether it returns or fails. A relation that every elementary step upholds is
upheld by whatever is composed of such steps. -/

namespace FluentQuery

open Sql

/-- Nothing has been told to a new query context yet. -/
inductive Context.Blank : Context → Prop
  | common : Blank (.ofKind .common)
  | abstract : Blank (.ofKind (.abstract .empty))
  | query : Blank (.ofKind (.query .empty []))
  | subquery (parent : Value) : Blank (.ofKind (.subquery .empty parent [] []))
  | delete (target : Value) : Blank (.ofKind (.delete target))
  | update (target : Value) : Blank (.ofKind (.update target []))

/-- The operations on a query context that create nothing. -/
inductive Context.Change : (Context → Except Error Context) → Prop
  | restrict (r : Value) : Change (·.restrict r)
  | groupBy (items : List Value) : Change (·.groupBy items)
  | having (r : Value) : Change (·.having r)
  | distinct (v : Value) : Change (·.distinct v)
  | select (v : Value) : Change (·.select v)
  | orderBy (items : List Value) : Change (·.orderBy items)
  | correlate (root : Value) : Change (·.correlate root)
  | assign (key : String) (v : Value) : Change (·.assign key v)

/-- Those among them that leave what the context is correlated with, as steps of a configuration do. -/
inductive Context.Tell : (Context → Except Error Context) → Prop
  | restrict (r : Value) : Tell (·.restrict r)
  | groupBy (items : List Value) : Tell (·.groupBy items)
  | having (r : Value) : Tell (·.having r)
  | distinct (v : Value) : Tell (·.distinct v)
  | select (v : Value) : Tell (·.select v)
  | orderBy (items : List Value) : Tell (·.orderBy items)
  | assign (key : String) (v : Value) : Tell (·.assign key v)

theorem Context.Tell.change {f : Context → Except Error Context} (h : Tell f) : Change f := by
  cases h with
  | restrict r => exact .restrict r
  | groupBy items => exact .groupBy items
  | having r => exact .having r
  | distinct v => exact .distinct v
  | select v => exact .select v
  | orderBy items => exact .orderBy items
  | assign key v => exact .assign key v

namespace ContextId

/-- A new root, aliased by a number of its own. -/
def growRoot (c : ContextId) (entity : Value) : Run Value := do
  let id ← fresh
  c.updateGet (·.addRoot id entity)

/-- A new join, its target aliased by a number of its own. -/
def growJoin (c : ContextId) (correlated : Bool) (m : Mapped) (r : Relationship) (outer : Value) :
    Run Value := do
  let id ← fresh
  let truth := outer.truth? (← get)
  c.updateGet (·.join id correlated m r outer truth)

end ContextId

/-- Whatever machine a computation starts on, `R` relates it to the one it leaves. -/
def Keeps (R : Machine → Machine → Prop) {α : Type} (x : Run α) : Prop := ∀ m, R m (after x m)

/-- A relation between machines that making new values upholds, and whatever else leaves query
contexts, executable queries, Refs, globals and the stack alone. -/
class Inert (R : Machine → Machine → Prop) : Prop where
  refl : ∀ m, R m m
  trans : ∀ {a b c}, R a b → R b c → R a c
  fresh : Keeps R fresh
  newMapping : ∀ fields, Keeps R (MappingId.new fields)
  log : ∀ line, Keeps R (modify fun m => { m with log := m.log ++ [line] })
  handle : ∀ v, Keeps R (handle v)

/-- A relation between machines that every elementary step upholds but for operations on query
contexts. -/
class Creating (R : Machine → Machine → Prop) : Prop extends Inert R where
  newRef : Keeps R RefId.new
  bind : ∀ (r : RefId) v, Keeps R (r.bind v)
  unbind : ∀ r : RefId, Keeps R r.unbind
  newContext : ∀ {c}, Context.Blank c → Keeps R (ContextId.new c)
  updateMapping : ∀ (i : MappingId) fields, Keeps R (i.update fields)
  newQuery : ∀ q, Keeps R (QueryId.new q)
  writeQuery : ∀ (q : QueryId) x, Keeps R (q.write x)
  note : ∀ d, Keeps R (note d)
  setGlobal : ∀ name v, Keeps R (setGlobal name v)
  onStack : ∀ {α} stack {body : Run α}, Keeps R body → Keeps R (onStack stack body)

/-- A relation between machines that every elementary step upholds. -/
class Guarantee (R : Machine → Machine → Prop) : Prop extends Creating R where
  change : ∀ (c : ContextId) {f}, Context.Change f → Keeps R (c.update f)
  growRoot : ∀ (c : ContextId) entity, Keeps R (c.growRoot entity)
  growJoin : ∀ (c : ContextId) correlated m r outer, Keeps R (c.growJoin correlated m r outer)

/-- A relation between machines that operations on query contexts uphold. -/
class Composing (R : Machine → Machine → Prop) : Prop extends Inert R where
  newContext : ∀ {c}, Context.Blank c → Keeps R (ContextId.new c)
  change : ∀ (c : ContextId) {f}, Context.Change f → Keeps R (c.update f)
  growRoot : ∀ (c : ContextId) entity, Keeps R (c.growRoot entity)
  growJoin : ∀ (c : ContextId) correlated m r outer, Keeps R (c.growJoin correlated m r outer)

instance {R : Machine → Machine → Prop} [Guarantee R] : Composing R where
  newContext := Creating.newContext
  change := Guarantee.change
  growRoot := Guarantee.growRoot
  growJoin := Guarantee.growJoin

/-- What steps of a configuration do with this query context upholds `R`. -/
structure KeepsTold (R : Machine → Machine → Prop) (c : ContextId) : Prop where
  change : ∀ {f}, Context.Tell f → Keeps R (c.update f)
  growRoot : ∀ entity, Keeps R (c.growRoot entity)
  growJoin : ∀ correlated m r outer, Keeps R (c.growJoin correlated m r outer)

theorem Composing.tells {R : Machine → Machine → Prop} [Composing R] (c : ContextId) : KeepsTold R c :=
  ⟨fun h => Composing.change c h.change, Composing.growRoot c, Composing.growJoin c⟩

attribute [grind ←] Inert.fresh Inert.newMapping Inert.handle Creating.newRef Creating.bind
  Creating.unbind Creating.newContext Guarantee.change Guarantee.growRoot Guarantee.growJoin
  Creating.updateMapping Creating.newQuery Creating.writeQuery Creating.note
  Creating.setGlobal Creating.onStack

namespace Keeps

variable {R : Machine → Machine → Prop} [Inert R] {α β : Type}

/-! ### Composition -/

@[grind ←] theorem pure (a : α) : Keeps R (pure a : Run α) := fun m => Inert.refl m

@[grind ←] theorem fail (e : Error) : Keeps R (fail e : Run α) := fun m => Inert.refl m

@[grind ←] theorem throw (e : Error) : Keeps R (throw e : Run α) := fun m => Inert.refl m

@[grind ←] theorem get : Keeps R (get : Run Machine) := fun m => Inert.refl m

@[grind ←] theorem bind {x : Run α} {f : α → Run β} (hx : Keeps R x) (hf : ∀ a, Keeps R (f a)) :
    Keeps R (x >>= f) := by
  intro m
  have hm := hx m
  unfold after at hm ⊢
  rcases h : exec x m with ⟨e | a, m₁⟩
  · rw [exec_bind_of_error h]
    rwa [h] at hm
  · rw [exec_bind_of_ok h]
    rw [h] at hm
    exact Inert.trans hm (hf a m₁)

/-- What follows a failure is not run. -/
theorem fail_bind (e : Error) (f : α → Run β) : Keeps R (FluentQuery.fail e >>= f) :=
  fun m => Inert.refl m

omit [Inert R] in
theorem ite {c : Prop} [Decidable c] {x y : Run α} (hx : Keeps R x) (hy : Keeps R y) :
    Keeps R (if c then x else y) := by
  split
  · exact hx
  · exact hy

/-- A check that may refuse, before the rest. -/
theorem guarded {c : Prop} [Decidable c] {e : Error} {k : Unit → Run α} {x : Run α}
    (hx : Keeps R x) : Keeps R (if c then FluentQuery.fail e >>= k else x) :=
  .ite (fail_bind e k) hx

@[grind ←] theorem map {x : Run α} {f : α → β} (hx : Keeps R x) : Keeps R (f <$> x) := by
  rw [map_eq_pure_bind]
  exact hx.bind fun a => pure _

/-- An operation on a query context upholds what writing its outcome back does. -/
theorem update {c : ContextId} {f : Context → Except Error Context}
    (write : ∀ {m x y}, m.context? c = some x → f x = .ok y →
      R m { m with contexts := m.contexts.set c.index y }) : Keeps R (c.update f) := by
  intro m
  rw [after, exec_update]
  rcases hx : m.context? c with _ | x
  · exact Inert.refl m
  · dsimp only
    rcases hy : f x with _ | y
    · exact Inert.refl m
    · exact write hx hy

theorem updateGet {c : ContextId} {f : Context → Except Error (Value × Context)}
    (write : ∀ {m x v y}, m.context? c = some x → f x = .ok (v, y) →
      R m { m with contexts := m.contexts.set c.index y }) : Keeps R (c.updateGet f) := by
  intro m
  rw [after, exec_updateGet]
  rcases hx : m.context? c with _ | x
  · exact Inert.refl m
  · dsimp only
    rcases hy : f x with _ | ⟨v, y⟩
    · exact Inert.refl m
    · exact write hx hy

@[grind ←] theorem tryCatch {x : Run α} {handle : Error → Run α} (hx : Keeps R x)
    (hh : ∀ e, Keeps R (handle e)) : Keeps R (tryCatch x handle) := by
  intro m
  have hm := hx m
  unfold after at hm ⊢
  rw [exec_tryCatch]
  rcases h : exec x m with ⟨e | a, m₁⟩ <;> rw [h] at hm
  · exact Inert.trans hm (hh e m₁)
  · exact hm

@[grind ←] theorem mapM {f : α → Run β} (hf : ∀ a, Keeps R (f a)) (xs : List α) :
    Keeps R (xs.mapM f) := by
  induction xs with
  | nil => exact pure []
  | cons x xs ih =>
    rw [List.mapM_cons]
    exact (hf x).bind fun _ => ih.bind fun _ => pure _

@[grind ←] theorem forM {f : α → Run PUnit} (hf : ∀ a, Keeps R (f a)) (xs : List α) :
    Keeps R (xs.forM f) := by
  induction xs with
  | nil => exact pure ()
  | cons x xs ih => exact (hf x).bind fun _ => ih

end Keeps

/-! ### Relations that only look at query contexts and numbers -/

section

variable {R : Machine → Machine → Prop}
  (same : ∀ {m m' : Machine}, m.next ≤ m'.next → m'.contexts = m.contexts → R m m')

include same

theorem Inert.of_contexts (trans : ∀ {a b c}, R a b → R b c → R a c) : Inert R where
  refl _ := same (Nat.le_refl _) rfl
  trans := trans
  fresh _ := same (Nat.le_succ _) rfl
  newMapping _ _ := same (Nat.le_refl _) rfl
  log _ _ := same (Nat.le_refl _) rfl
  handle _ _ := same (Nat.le_refl _) rfl

theorem Creating.of_contexts [Inert R]
    (newContext : ∀ {x}, Context.Blank x → Keeps R (ContextId.new x)) : Creating R where
  newRef _ := same (Nat.le_refl _) rfl
  bind r v m := by
    rw [after, exec_bindRef]
    split <;> exact same (Nat.le_refl _) rfl
  unbind _ _ := same (Nat.le_refl _) rfl
  newContext := newContext
  updateMapping _ _ _ := same (Nat.le_refl _) rfl
  newQuery _ _ := same (Nat.le_refl _) rfl
  writeQuery _ _ _ := same (Nat.le_refl _) rfl
  note _ _ := same (Nat.le_refl _) rfl
  setGlobal _ _ _ := same (Nat.le_refl _) rfl
  onStack stack body hb m := by
    rw [after, exec_onStack]
    have begun : R m { m with stack } := same (Nat.le_refl _) rfl
    exact Inert.trans (Inert.trans begun (hb { m with stack })) (same (Nat.le_refl _) rfl)

end

variable {R : Machine → Machine → Prop} [Inert R] {α : Type}

/-! ### Steps of the machine -/

@[grind ←] theorem liftExcept_keeps (x : Except Error α) : Keeps R (liftExcept x) := by
  cases x with
  | error e => exact .fail e
  | ok a => exact .pure a

@[grind ←] theorem orExternal_keeps (x : Option α) : Keeps R (orExternal x) := by
  cases x with
  | none => exact .fail _
  | some a => exact .pure a

@[grind ←] theorem ensuring_keeps {body : Run α} {cleanup : Run Unit} (hb : Keeps R body)
    (hc : Keeps R cleanup) : Keeps R (ensuring body cleanup) := by
  unfold ensuring
  exact (hb.tryCatch fun e => hc.bind fun _ => .throw e).bind fun a => hc.bind fun _ => .pure a

@[grind ←] theorem discard_keeps {x : Run α} (hx : Keeps R x) : Keeps R (discard x) :=
  hx.map (f := fun _ => PUnit.unit)

namespace RefId

@[grind ←] theorem isBound_keeps (r : RefId) : Keeps R r.isBound := by
  grind [isBound]

@[grind ←] theorem read_keeps (r : RefId) : Keeps R r.read := by
  grind [read]

end RefId

@[grind ←] theorem ContextId.read_keeps (c : ContextId) : Keeps R c.read := by
  grind [read]

@[grind ←] theorem MappingId.read_keeps (i : MappingId) : Keeps R i.read := by
  grind [read]

@[grind ←] theorem QueryId.read_keeps (q : QueryId) : Keeps R q.read := by
  grind [read]

@[grind ←] theorem logLine_keeps {text : Run String} (h : Keeps R text) :
    Keeps R (logLine text) := by
  unfold logLine
  refine .bind .get fun m => ?_
  split
  · exact h.bind fun line => Inert.log _
  · exact .pure ()

@[grind ←] theorem register_keeps (v : Value) : Keeps R (register v) := by
  grind [register]

@[grind ←] theorem truth_keeps (v : Value) : Keeps R v.truth := by
  grind [Value.truth]

@[grind ←] theorem currentFrame_keeps : Keeps R currentFrame := by
  grind [currentFrame]

/-! ### Relations that do not look at query contexts -/

section Blind

variable (blind : ∀ m contexts, R m { m with contexts })

include blind

theorem update_keeps (c : ContextId) (f : Context → Except Error Context) :
    Keeps R (c.update f) :=
  .update fun _ _ => blind _ _

theorem growRoot_keeps (c : ContextId) (entity : Value) : Keeps R (c.growRoot entity) :=
  Keeps.bind Inert.fresh fun _ => .updateGet fun _ _ => blind _ _

theorem growJoin_keeps (c : ContextId) (correlated : Bool) (m : Mapped)
    (r : Relationship) (outer : Value) : Keeps R (c.growJoin correlated m r outer) :=
  Keeps.bind Inert.fresh fun _ => Keeps.bind .get fun _ => .updateGet fun _ _ => blind _ _

theorem Composing.of_blind : Composing R where
  newContext _ _ := blind _ _
  change c _ _ := update_keeps blind c _
  growRoot := growRoot_keeps blind
  growJoin := growJoin_keeps blind

end Blind

omit [Inert R] in
theorem Guarantee.of_blind [Creating R] (blind : ∀ m contexts, R m { m with contexts }) :
    Guarantee R where
  change c _ _ := update_keeps blind c _
  growRoot := growRoot_keeps blind
  growJoin := growJoin_keeps blind

/-! ### New values -/

@[grind ←] theorem newTerm_keeps (t : Term) : Keeps R (newTerm t) := by
  grind [newTerm]

@[grind ←] theorem newInt_keeps (n : Int) : Keeps R (newInt n) := by
  grind [newInt]

@[grind ←] theorem newFloat_keeps (x : Binary64) : Keeps R (newFloat x) := by
  grind [newFloat]

@[grind ←] theorem newText_keeps (s : String) : Keeps R (newText s) := by
  grind [newText]

@[grind ←] theorem newList_keeps (items : List Value) : Keeps R (newList items) := by
  grind [newList]

@[grind ←] theorem newTuple_keeps (items : List Value) : Keeps R (newTuple items) := by
  grind [newTuple]

@[grind ←] theorem newMapping_keeps (fields : List (String × Value)) :
    Keeps R (newMapping fields) := by
  grind [newMapping]

end FluentQuery
