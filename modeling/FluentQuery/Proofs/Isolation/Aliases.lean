import FluentQuery.Proofs.Builds

/-! The roots and joins of subqueries. Whatever runs only adds to them, and each root or
join target that is added is an alias with a number that nothing had before. -/

namespace FluentQuery

open Sql

namespace SelectBody

/-- From `b` to `b'` roots and joins were only added, the added ones being aliases with numbers of
their own from `first` to below `last`. -/
structure Sprouts (first last : Nat) (b b' : SelectBody) : Prop where
  exists_added : ∃ (roots : List Mapped) (joins : List JoinPlan) (numbers : List Nat),
    b'.roots = b.roots ++ roots.map .mapped ∧ b'.joins = b.joins ++ joins ∧
      (roots.map (·.alias?) ++ joins.map (·.target.alias?)).Perm (numbers.map some) ∧
      numbers.Nodup ∧ ∀ n ∈ numbers, first ≤ n ∧ n < last

namespace Sprouts

variable {first mid last : Nat} {b b' b'' : SelectBody}

theorem of_eq (hr : b'.roots = b.roots) (hj : b'.joins = b.joins) : Sprouts first last b b' :=
  ⟨[], [], [], by simp [hr], by simp [hj], .nil, .nil, by simp⟩

theorem trans (h : Sprouts first mid b b') (h' : Sprouts mid last b' b'') (hm : first ≤ mid)
    (hl : mid ≤ last) : Sprouts first last b b'' := by
  obtain ⟨roots, joins, numbers, hr, hj, perm, nodup, range⟩ := h.exists_added
  obtain ⟨roots', joins', numbers', hr', hj', perm', nodup', range'⟩ := h'.exists_added
  refine ⟨roots ++ roots', joins ++ joins', numbers ++ numbers', by simp [hr', hr],
    by simp [hj', hj], ?_, ?_, ?_⟩
  · simp only [List.map_append, List.append_assoc]
    have swap := List.perm_append_comm_assoc (roots'.map (·.alias?))
      (joins.map (·.target.alias?)) (joins'.map (·.target.alias?))
    refine (swap.append_left _).trans ?_
    rw [← List.append_assoc]
    exact perm.append perm'
  · refine List.nodup_append.mpr ⟨nodup, nodup', fun n hn k hk => ?_⟩
    have := range n hn
    have := range' k hk
    omega
  · intro n hn
    rcases List.mem_append.mp hn with hn | hn
    · have := range n hn
      omega
    · have := range' n hn
      omega

theorem root (h : first < last) {m : Mapped} (hm : m.alias? = some first)
    (hr : b'.roots = b.roots ++ [.mapped m]) (hj : b'.joins = b.joins) :
    Sprouts first last b b' :=
  ⟨[m], [], [first], hr, by simp [hj], by simp [hm], by simp, by simpa using h⟩

theorem join (h : first < last) {j : JoinPlan} (hm : j.target.alias? = some first)
    (hr : b'.roots = b.roots) (hj : b'.joins = b.joins ++ [j]) : Sprouts first last b b' :=
  ⟨[], [j], [first], by simp [hr], hj, by simp [hm], by simp, by simpa using h⟩

end Sprouts

end SelectBody

/-- The body of a subquery; of any other context an empty one. -/
def Context.subqueryBody (x : Context) : SelectBody :=
  match x.kind with
  | .subquery b _ _ _ => b
  | _ => .empty

/-- The body of the subquery at an address, an empty one if there is none. -/
def Machine.subqueryBody (m : Machine) (c : ContextId) : SelectBody :=
  (m.context? c).elim .empty (·.subqueryBody)

theorem Machine.subqueryBody_set {m : Machine} {c : ContextId} {x y : Context}
    (h : m.context? c = some x) (d : ContextId) :
    { m with contexts := m.contexts.set c.index y }.subqueryBody d =
      if d = c then y.subqueryBody else m.subqueryBody d := by
  unfold subqueryBody
  split
  · rename_i hd
    rw [hd, context?_set h]
    rfl
  · rename_i hd
    rw [context?_set_of_ne hd]

/-! ### Operations on a subquery -/

namespace Context

variable {x y : Context}

theorem subqueryBody_withBody {b : SelectBody} (hb : x.kind.body? = some b) (b' : SelectBody) :
    x.isSubquery = true ∧ x.subqueryBody = b ∧
        subqueryBody { x with kind := x.kind.withBody b' } = b' ∨
      x.isSubquery = false ∧ x.subqueryBody = .empty ∧
        subqueryBody { x with kind := x.kind.withBody b' } = .empty := by
  obtain ⟨restriction, kind⟩ := x
  cases kind with
  | «abstract» | query => exact .inr ⟨rfl, rfl, rfl⟩
  | subquery => exact .inl ⟨rfl, Option.some.inj hb, rfl⟩
  | common | delete | update => cases hb

theorem subqueryBody_updateBody {f : SelectBody → SelectBody} (h : x.updateBody f = .ok y)
    (hf : ∀ b, (f b).roots = b.roots ∧ (f b).joins = b.joins) :
    y.subqueryBody.roots = x.subqueryBody.roots ∧ y.subqueryBody.joins = x.subqueryBody.joins := by
  obtain ⟨b, hb, rfl⟩ := updateBody_eq_ok.mp h
  rcases subqueryBody_withBody hb (f b) with ⟨-, h, h'⟩ | ⟨-, h, h'⟩
  · rw [h, h']
    exact hf b
  · rw [h, h']
    exact ⟨rfl, rfl⟩

theorem Change.subqueryBody {f : Context → Except Error Context} (hf : Change f)
    (h : f x = .ok y) : y.subqueryBody.roots = x.subqueryBody.roots ∧
      y.subqueryBody.joins = x.subqueryBody.joins := by
  cases hf.changed h with
  | restriction r => exact ⟨rfl, rfl⟩
  | body h hf => exact subqueryBody_updateBody h hf
  | orders hk items => simp [Context.subqueryBody, hk]
  | correlated hk roots => simp [Context.subqueryBody, hk]
  | assignments hk fields => simp [Context.subqueryBody, hk]

theorem aliasOf?_alias {fresh : Nat} {entity : Value} {m : Mapped}
    (h : aliasOf? fresh entity = some m) : m.alias? = some fresh := by
  unfold aliasOf? at h
  split at h
  · rw [← Option.some.inj h]
  · rw [← Option.some.inj h]
  · cases h

/-- A root that is added to a subquery is a new alias. -/
theorem addRoot_sprouts {fresh : Nat} {entity root : Value}
    (h : x.addRoot fresh entity = .ok (root, y)) :
    x.subqueryBody.Sprouts fresh (fresh + 1) y.subqueryBody := by
  obtain ⟨-, hy, b, hb, made⟩ := addRoot_eq_ok h
  obtain ⟨b', hb', rfl⟩ := updateBody_eq_ok.mp hy
  rcases subqueryBody_withBody hb' { b' with roots := b'.roots ++ [root] } with
    ⟨subquery, hx, hy⟩ | ⟨-, hx, hy⟩
  · rw [if_neg (by simp [subquery])] at made
    obtain ⟨o, ho, rfl⟩ := made
    rw [hx, hy]
    exact .root (Nat.lt_succ_self _) (aliasOf?_alias ho) rfl rfl
  · rw [hx, hy]
    exact .of_eq rfl rfl

/-- The target of a join that is added to a subquery is a new alias, be it joined or a root. -/
theorem join_sprouts {fresh : Nat} {correlated : Bool} {owner : Mapped} {r : Relationship}
    {outer v : Value} {truth : Option Bool}
    (h : x.join fresh correlated owner r outer truth = .ok (v, y)) :
    x.subqueryBody.Sprouts fresh (fresh + 1) y.subqueryBody := by
  obtain ⟨-, joined⟩ := join_eq_ok h
  cases joined with
  | planned target hy =>
    obtain ⟨b, hb, rfl⟩ := updateBody_eq_ok.mp hy
    rcases subqueryBody_withBody hb _ with ⟨-, hx, hy⟩ | ⟨-, hx, hy⟩
    · rw [hx, hy]
      exact .join (Nat.lt_succ_self _) (congrArg Mapped.alias? target) rfl rfl
    · rw [hx, hy]
      exact .of_eq rfl rfl
  | correlated target hk =>
    rw [subqueryBody, hk]
    exact .root (Nat.lt_succ_self _) (congrArg Mapped.alias? target) rfl rfl

end Context

/-! ### Runs -/

/-- Numbers are not given twice, and subqueries only sprout. -/
structure Sprouting (m m' : Machine) : Prop where
  next : m.next ≤ m'.next
  body : ∀ c, (m.subqueryBody c).Sprouts m.next m'.next (m'.subqueryBody c)

namespace Sprouting

theorem of_contexts {m m' : Machine} (hn : m.next ≤ m'.next) (hc : m'.contexts = m.contexts) :
    Sprouting m m' where
  next := hn
  body c := by
    rw [Machine.subqueryBody, Machine.subqueryBody, Machine.context?, Machine.context?, hc]
    exact .of_eq rfl rfl

theorem of_set {m : Machine} {c : ContextId} {x y : Context} (h : m.context? c = some x)
    {m' : Machine} (hn : m.next ≤ m'.next) (hc : m'.contexts = m.contexts.set c.index y)
    (hy : x.subqueryBody.Sprouts m.next m'.next y.subqueryBody) : Sprouting m m' where
  next := hn
  body d := by
    have told : m'.subqueryBody d = if d = c then y.subqueryBody else m.subqueryBody d := by
      rw [← Machine.subqueryBody_set h d]
      unfold Machine.subqueryBody Machine.context?
      rw [hc]
    rw [told]
    split
    · rename_i hd
      rw [hd, Machine.subqueryBody, h]
      exact hy
    · exact .of_eq rfl rfl

instance : Inert Sprouting := .of_contexts of_contexts fun hab hbc => {
  next := Nat.le_trans hab.next hbc.next
  body := fun c => (hab.body c).trans (hbc.body c) hab.next hbc.next }

theorem newContext {x : Context} (hx : x.Blank) : Keeps Sprouting (ContextId.new x) := by
  intro m
  have blank : x.subqueryBody = .empty := by cases hx <;> rfl
  refine ⟨Nat.le_refl _, fun c => ?_⟩
  have told : (after (ContextId.new x) m).subqueryBody c = m.subqueryBody c := by
    change ((m.contexts ++ [x])[c.index]?).elim SelectBody.empty (·.subqueryBody) = _
    rcases Nat.lt_or_ge c.index m.contexts.length with old | new
    · rw [List.getElem?_append_left old]
      rfl
    · rw [List.getElem?_append_right new, Machine.subqueryBody, Machine.context?,
        List.getElem?_eq_none new]
      cases c.index - m.contexts.length with
      | zero => exact blank
      | succ k => rfl
  rw [told]
  exact .of_eq rfl rfl

theorem change (c : ContextId) {f : Context → Except Error Context} (hf : Context.Change f) :
    Keeps Sprouting (c.update f) := by
  refine .update fun hx hy => ?_
  obtain ⟨hr, hj⟩ := hf.subqueryBody hy
  exact of_set hx (Nat.le_refl _) rfl (.of_eq hr hj)

/-- An operation that takes a new number. -/
theorem updateGet (c : ContextId) {f : Nat → Context → Except Error (Value × Context)}
    (hf : ∀ {fresh x v y}, f fresh x = .ok (v, y) →
      x.subqueryBody.Sprouts fresh (fresh + 1) y.subqueryBody) (m : Machine) :
    Sprouting m (after (c.updateGet (f m.next)) { m with next := m.next + 1 }) := by
  rw [after, exec_updateGet]
  rcases hx : Machine.context? { m with next := m.next + 1 } c with _ | x
  · exact of_contexts (Nat.le_succ _) rfl
  · dsimp only
    rcases hy : f m.next x with _ | ⟨v, y⟩
    · exact of_contexts (Nat.le_succ _) rfl
    · exact of_set (m := m) hx (Nat.le_succ _) rfl (hf hy)

theorem growRoot (c : ContextId) (entity : Value) : Keeps Sprouting (c.growRoot entity) := by
  intro m
  unfold ContextId.growRoot
  rw [after, exec_bind_of_ok (exec_fresh m)]
  exact updateGet c (f := fun id x => x.addRoot id entity) Context.addRoot_sprouts m

theorem growJoin (c : ContextId) (correlated : Bool) (owner : Mapped) (r : Relationship)
    (outer : Value) : Keeps Sprouting (c.growJoin correlated owner r outer) := by
  intro m
  unfold ContextId.growJoin
  rw [after, exec_bind_of_ok (exec_fresh m), exec_bind_of_ok (exec_get _)]
  exact updateGet c (f := fun id x => x.join id correlated owner r outer _) Context.join_sprouts m

instance : Guarantee Sprouting where
  toCreating := .of_contexts of_contexts newContext
  change := change
  growRoot := growRoot
  growJoin := growJoin

end Sprouting

end FluentQuery
