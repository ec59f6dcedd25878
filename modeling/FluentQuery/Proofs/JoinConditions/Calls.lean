import FluentQuery.Proofs.Roots.History
import FluentQuery.Proofs.Filters

/-! The calls a subquery takes while it is under construction, and all that one of them can do to it. A
join that is accepted is kept in one of two places: as a planned join, or, from a correlated root, as a
root and a condition. Nothing else touches these. -/

namespace FluentQuery

open Sql

variable {c : ContextId} {m m₁ m' : Machine} {x y : Context} {v : Value}

namespace Context

theorem restriction_restrict {r : Value} (h : x.restrict r = .ok y) : y.restriction = r := by
  obtain ⟨-, rfl⟩ := restrict_eq_ok h
  rfl

theorem restriction_correlate {root : Value} (h : x.correlate root = .ok y) :
    y.restriction = x.restriction := by
  obtain ⟨b, parent, roots, conditions, -, rfl⟩ := correlate_eq_ok h
  rfl

end Context

/-- A join that was accepted: a relationship of `owner` to the new alias `target`, outer if `outer`
counts as true. It is `correlated` if the owner was a correlated root at that moment. -/
structure Joined where
  owner : Mapped
  relationship : Relationship
  target : Mapped
  outer : Value
  correlated : Bool

namespace Joined

def plan (j : Joined) : JoinPlan := ⟨j.owner, j.relationship, j.target, j.outer⟩

/-- Its condition, between the owner and the target. -/
def condition (j : Joined) : Term :=
  j.relationship.condition j.owner.source j.target.source j.target.source

end Joined

/-- The calls that build up a subquery. -/
inductive SubqueryCall where
  | root (entity : Value)
  | correlate (root : Value)
  | join (owner key outer : Value)
  | restrict (r : Value)
  | groupBy (items : List Value)
  | having (r : Value)
  | distinct (v : Value)
  | select (v : Value)

namespace SubqueryCall

/-- What a call changes by itself, if it creates nothing, and what it answers then. -/
def change? (c : ContextId) : SubqueryCall → Option ((Context → Except Error Context) × Value)
  | correlate r => some ((·.correlate r), r)
  | restrict r => some ((·.restrict r), .context c)
  | groupBy items => some ((·.groupBy items), .context c)
  | having r => some ((·.having r), .context c)
  | distinct v => some ((·.distinct v), .context c)
  | select v => some ((·.select v), .context c)
  | root _ | join .. => none

/-- The restriction that a call places. -/
def placed? : SubqueryCall → Option Value
  | restrict r => some r
  | _ => none

def run (c : ContextId) : SubqueryCall → Run Value
  | root entity => c.addRoot entity
  | join owner key outer => c.join owner key outer
  | correlate r => do
    c.update (·.correlate r)
    return r
  | restrict r => do
    c.update (·.restrict r)
    return .context c
  | groupBy items => do
    c.update (·.groupBy items)
    return .context c
  | having r => do
    c.update (·.having r)
    return .context c
  | distinct v => do
    c.update (·.distinct v)
    return .context c
  | select v => do
    c.update (·.select v)
    return .context c

/-- A call that creates nothing places its restriction, if it has one, and no other. -/
theorem change?_eq_some {call : SubqueryCall} {f : Context → Except Error Context}
    (h : call.change? c = some (f, v)) :
    Context.Change f ∧ ∀ x y, f x = .ok y → y.restriction = call.placed?.getD x.restriction := by
  cases call with
  | root | join => cases h
  | correlate r =>
    obtain ⟨rfl, -⟩ := Prod.mk.inj (Option.some.inj h)
    exact ⟨.correlate r, fun _ _ hy => Context.restriction_correlate hy⟩
  | restrict r =>
    obtain ⟨rfl, -⟩ := Prod.mk.inj (Option.some.inj h)
    exact ⟨.restrict r, fun _ _ hy => Context.restriction_restrict hy⟩
  | groupBy items =>
    obtain ⟨rfl, -⟩ := Prod.mk.inj (Option.some.inj h)
    exact ⟨.groupBy items, fun _ _ hy => Context.restriction_updateBody hy⟩
  | having r =>
    obtain ⟨rfl, -⟩ := Prod.mk.inj (Option.some.inj h)
    exact ⟨.having r, fun _ _ hy => Context.restriction_having hy⟩
  | distinct v =>
    obtain ⟨rfl, -⟩ := Prod.mk.inj (Option.some.inj h)
    exact ⟨.distinct v, fun _ _ hy => Context.restriction_updateBody hy⟩
  | select v =>
    obtain ⟨rfl, -⟩ := Prod.mk.inj (Option.some.inj h)
    exact ⟨.select v, fun _ _ hy => Context.restriction_select hy⟩

theorem run_eq_of_change? {call : SubqueryCall} {f : Context → Except Error Context}
    (h : call.change? c = some (f, v)) : call.run c = (do c.update f; return v) := by
  cases call <;> cases h <;> rfl

end SubqueryCall

/-! ### Query contexts -/

namespace Context

/-- The planned joins. -/
def plans (x : Context) : List JoinPlan := x.kind.body?.elim [] (·.joins)

/-- The second context is the first with another root at most: joins and their conditions are kept. -/
structure KeepsJoins (x y : Context) : Prop where
  nested : y.isSubquery = x.isSubquery
  plans : y.plans = x.plans
  conditions : y.kind.joinConditions = x.kind.joinConditions

theorem KeepsJoins.updateBody {f : SelectBody → SelectBody} (h : x.updateBody f = .ok y)
    (hf : ∀ b, (f b).joins = b.joins) : x.KeepsJoins y := by
  obtain ⟨b, hb, rfl⟩ := updateBody_eq_ok.mp h
  obtain ⟨restriction, kind⟩ := x
  cases kind <;> cases hb <;> exact ⟨rfl, hf _, rfl⟩

theorem Change.keepsJoins {f : Context → Except Error Context} (hf : Change f) (h : f x = .ok y) :
    x.KeepsJoins y := by
  cases hf.changed h with
  | restriction r => exact ⟨rfl, rfl, rfl⟩
  | body h hf => exact .updateBody h fun b => (hf b).2
  | orders hk items => exact ⟨by simp [isSubquery, hk], by simp [Context.plans, hk, ContextKind.body?],
      by simp [hk, ContextKind.joinConditions]⟩
  | correlated hk roots => exact ⟨by simp [isSubquery, hk],
      by simp [Context.plans, hk, ContextKind.body?], by simp [hk, ContextKind.joinConditions]⟩
  | assignments hk fields => exact ⟨by simp [isSubquery, hk],
      by simp [Context.plans, hk, ContextKind.body?], by simp [hk, ContextKind.joinConditions]⟩

theorem addRoot_keepsJoins {fresh : Nat} {entity : Value} (h : x.addRoot fresh entity = .ok (v, y)) :
    x.KeepsJoins y := .updateBody (addRoot_eq_ok h).2.1 fun _ => rfl

/-! ### Subqueries -/

theorem exists_of_isSubquery (sub : x.isSubquery = true) :
    ∃ b parent roots conditions, x.kind = .subquery b parent roots conditions := by
  unfold isSubquery at sub
  split at sub
  · exact ⟨_, _, _, _, by assumption⟩
  · cases sub

theorem isSelecting_of_isSubquery (sub : x.isSubquery = true) : x.isSelecting = true := by
  obtain ⟨b, parent, roots, conditions, hk⟩ := exists_of_isSubquery sub
  rw [isSelecting, hk]
  rfl

theorem target?_of_isSubquery (sub : x.isSubquery = true) : x.target? = none := by
  obtain ⟨b, parent, roots, conditions, hk⟩ := exists_of_isSubquery sub
  rw [target?, hk]

theorem orderBy_of_isSubquery (sub : x.isSubquery = true) (items : List Value) :
    x.orderBy items = .error .external := by
  obtain ⟨b, parent, roots, conditions, hk⟩ := exists_of_isSubquery sub
  rw [orderBy, hk]

theorem assign_of_isSubquery (sub : x.isSubquery = true) (key : String) (v : Value) :
    x.assign key v = .error .external := by
  obtain ⟨b, parent, roots, conditions, hk⟩ := exists_of_isSubquery sub
  rw [assign, hk]

theorem correlates_iff (sub : x.isSubquery = true) (root : Value) :
    x.correlates root = true ↔ ∃ r ∈ x.correlated, root.same r = true := by
  obtain ⟨b, parent, roots, conditions, hk⟩ := exists_of_isSubquery sub
  simp [correlates, Context.correlated, hk]

/-- What a subquery answers to a join from a correlated root. -/
theorem join_correlated_answers (sub : x.isSubquery = true) (fresh : Nat) (owner : Mapped)
    (r : Relationship) (outer : Value) (truth : Option Bool) :
    (truth = some true → x.join fresh true owner r outer truth = .error .outerFromCorrelated) ∧
      (truth = some false → r.pairing?.isSome = true →
        x.join fresh true owner r outer truth = .error .throughFromCorrelated) ∧
      (truth = some false → r.pairing? = none →
        ∃ v y, x.join fresh true owner r outer truth = .ok (v, y)) := by
  obtain ⟨b, parent, roots, conditions, hk⟩ := exists_of_isSubquery sub
  unfold join Relationship.pairing?
  simp only [hk, ↓reduceIte]
  refine ⟨?_, ?_, ?_⟩ <;> rintro rfl <;> cases r.link <;> simp

/-- A join is planned, or it is from a correlated root and its condition is kept. -/
theorem join_keeps {fresh : Nat} {j : Joined} {truth : Option Bool}
    (h : x.join fresh j.correlated j.owner j.relationship j.outer truth = .ok (.mapped j.target, y)) :
    y.isSubquery = x.isSubquery ∧
      y.plans = x.plans ++ (if j.correlated then [] else [j.plan]) ∧
      y.kind.joinConditions = x.kind.joinConditions ++ (if j.correlated then [j.condition] else []) := by
  obtain ⟨same, joined⟩ := join_eq_ok h
  have named {o : Mapped} (ho : o = ⟨j.relationship.target, some fresh⟩) : o = j.target :=
    ho.trans (Value.mapped.inj same).symm
  generalize hj : j.correlated = correlated at joined
  cases joined with
  | planned target hy =>
    obtain rfl := named target
    obtain ⟨b, hb, rfl⟩ := updateBody_eq_ok.mp hy
    obtain ⟨restriction, kind⟩ := x
    cases kind <;> cases hb <;>
      simp [isSubquery, plans, ContextKind.body?, ContextKind.withBody, ContextKind.joinConditions,
        Joined.plan]
  | correlated target hk =>
    obtain rfl := named target
    simp [isSubquery, plans, hk, ContextKind.body?, ContextKind.joinConditions, Joined.condition]

end Context

/-! ### What a call does -/

/-- All that a call can make of a subquery, `x` becoming `y`, while the numbers from `n` to `n'` are
given away: a refusal changes nothing, except that a join from a correlated root that is no mapped class
or alias leaves a root behind; a root or a join enters an alias with one of the numbers; the other calls
create nothing. -/
inductive SubqueryCall.Effect (c : ContextId) (x : Context) (n n' : Nat) :
    SubqueryCall → Except Error Value → Option Joined → Context → Prop
  | refused {call e} : Effect c x n n' call (.error e) none x
  | abandoned {owner key outer v k y} (correlates : x.correlates owner = true)
      (unmapped : owner.source? = none) (number : n ≤ k ∧ k < n') {entity : Value}
      (h : x.addRoot k entity = .ok (v, y)) :
      Effect c x n n' (.join owner key outer) (.error .external) none y
  | root {entity v k y} (number : n ≤ k ∧ k < n') (h : x.addRoot k entity = .ok (v, y)) :
      Effect c x n n' (.root entity) (.ok v) none y
  | joined {owner key outer j k y truth} (number : n ≤ k ∧ k < n')
      (correlates : j.correlated = x.correlates owner)
      (own : j.correlated = true → owner = .mapped j.owner) (same : j.outer = outer)
      (h : x.join k j.correlated j.owner j.relationship j.outer truth = .ok (.mapped j.target, y)) :
      Effect c x n n' (.join owner key outer) (.ok (.mapped j.target)) (some j) y
  | changed {call f v y} (change : call.change? c = some (f, v)) (h : f x = .ok y) :
      Effect c x n n' call (.ok v) none y

namespace ContextId

variable {owner key outer entity : Value} {e : Error}

theorem exec_addRoot (hx : m.context? c = some x) (sub : x.isSubquery = true) (entity : Value) :
    exec (c.addRoot entity) m = exec (c.growRoot entity) m := by
  unfold addRoot
  rw [exec_bind_of_ok (exec_readContext_of_some hx), Context.target?_of_isSubquery sub]
  rfl

theorem exec_growRoot_eq_error (h : exec (c.growRoot entity) m = (.error e, m')) :
    m'.contexts = m.contexts ∧ m.next ≤ m'.next := by
  unfold growRoot at h
  rw [exec_bind_of_ok (exec_fresh m)] at h
  rw [eq_of_updateGet_eq_error h]
  exact ⟨rfl, Nat.le_succ _⟩

theorem exec_growJoin_eq_error {correlated : Bool} {o : Mapped} {r : Relationship}
    (h : exec (c.growJoin correlated o r outer) m = (.error e, m')) :
    m'.contexts = m.contexts ∧ m.next ≤ m'.next := by
  unfold growJoin at h
  rw [exec_bind_of_ok (exec_fresh m), exec_bind_of_ok (exec_get _)] at h
  rw [eq_of_updateGet_eq_error h]
  exact ⟨rfl, Nat.le_succ _⟩

/-- A join from a correlated root that is no mapped class or alias is refused, and may have added a root
then. -/
theorem exec_joinUnmapped_eq_error {r : Relationship} (hx : m.context? c = some x)
    (sub : x.isSubquery = true) (h : exec (c.joinUnmapped r outer) m = (.error e, m')) :
    m'.contexts = m.contexts ∧ m.next ≤ m'.next ∨
      e = .external ∧ ∃ entity v y, x.addRoot m.next entity = .ok (v, y) ∧
        m' = { m with next := m.next + 1, contexts := m.contexts.set c.index y } := by
  unfold joinUnmapped at h
  rw [exec_bind_of_ok (exec_get m)] at h
  split at h
  · cases h
    exact .inl ⟨rfl, Nat.le_refl _⟩
  · cases h
    exact .inl ⟨rfl, Nat.le_refl _⟩
  · cases h
    exact .inl ⟨rfl, Nat.le_refl _⟩
  · have mapped : discard (c.addRoot (.mapped ⟨r.target, none⟩)) = (do
        let _ ← c.addRoot (.mapped ⟨r.target, none⟩)
        return ()) := rfl
    rw [mapped, bind_assoc] at h
    rcases added : exec (c.addRoot (.mapped ⟨r.target, none⟩)) m with ⟨err | v, m₁⟩
    · rw [exec_bind_of_error added] at h
      obtain ⟨-, rfl⟩ := Prod.mk.inj h
      rw [exec_addRoot hx sub] at added
      exact .inl (exec_growRoot_eq_error added)
    · rw [exec_bind_of_ok added] at h
      obtain ⟨same, rfl⟩ := Prod.mk.inj h
      obtain rfl := Except.error.inj same
      rw [exec_addRoot hx sub] at added
      obtain ⟨z, y, hz, hy, rfl⟩ := exec_growRoot_eq_ok added
      obtain rfl := Option.some.inj (hx.symm.trans hz)
      exact .inr ⟨rfl, _, _, y, hy, rfl⟩

theorem exec_joinUnmapped_answers {r : Relationship} :
    (outer.truth? m = some true → (exec (c.joinUnmapped r outer) m).1 = .error .outerFromCorrelated) ∧
      (outer.truth? m = some false → r.pairing?.isSome = true →
        (exec (c.joinUnmapped r outer) m).1 = .error .throughFromCorrelated) := by
  unfold joinUnmapped Relationship.pairing?
  rw [exec_bind_of_ok (exec_get m)]
  constructor
  · intro isOuter
    simp [isOuter]
  · intro inner through
    cases hl : r.link with
    | through pairing left right => simp [inner]
    | _ => simp [hl] at through

/-- Looking up a relationship leaves the query contexts. -/
theorem contexts_of_resolveRelationship {r : Except Error (Mapped × Relationship)}
    (h : exec (resolveRelationship owner key) m = (r, m')) :
    m'.contexts = m.contexts ∧ m.next ≤ m'.next := by
  have settled : Settled m (after (resolveRelationship owner key) m) := resolveRelationship_keeps _ _ m
  have idling : Idling m (after (resolveRelationship owner key) m) := resolveRelationship_keeps _ _ m
  rw [after_eq h] at settled idling
  exact ⟨settled.contexts, idling.next⟩

/-- A join whose relationship was found is left to the subquery, unless it is from a correlated root
that is no mapped class or alias. -/
theorem exec_join_of_resolved {own : Mapped} {r : Relationship} (hx : m.context? c = some x)
    (sub : x.isSubquery = true)
    (resolved : exec (resolveRelationship owner key) m = (.ok (own, r), m₁)) :
    exec (c.join owner key outer) m =
      exec (if x.correlates owner && owner.source?.isNone then c.joinUnmapped r outer
        else c.growJoin (x.correlates owner) own r outer) m₁ := by
  unfold join
  rw [exec_bind_of_ok (exec_readContext_of_some hx),
    if_neg (by simp [Context.isSelecting_of_isSubquery sub]), exec_bind_of_ok resolved]
  rfl

/-- The answer to a join is that of the query context. -/
theorem exec_growJoin_answer {own : Mapped} {r : Relationship} (hx : m.context? c = some x)
    (correlated : Bool) : (exec (c.growJoin correlated own r outer) m).1 =
      (x.join m.next correlated own r outer (outer.truth? m)).map Prod.fst := by
  unfold growJoin
  rw [exec_bind_of_ok (exec_fresh m), exec_bind_of_ok (exec_get _), exec_updateGet]
  have still : ({ m with next := m.next + 1 } : Machine).context? c = some x := hx
  have same : outer.truth? { m with next := m.next + 1 } = outer.truth? m := by cases outer <;> rfl
  simp only [still, same]
  rcases x.join m.next correlated own r outer (outer.truth? m) with e | ⟨v, y⟩ <;> rfl

/-- A join that is refused leaves the subquery as it was, unless it is from a correlated root that is no
mapped class or alias: then it may have added a root. -/
theorem exec_join_eq_error (hx : m.context? c = some x) (sub : x.isSubquery = true)
    (h : exec (c.join owner key outer) m = (.error e, m')) :
    m'.contexts = m.contexts ∧ m.next ≤ m'.next ∨
      e = .external ∧ x.correlates owner = true ∧ owner.source? = none ∧
        ∃ k entity v y, m.next ≤ k ∧ k < m'.next ∧ x.addRoot k entity = .ok (v, y) ∧
          m'.contexts = m.contexts.set c.index y := by
  rcases resolved : exec (resolveRelationship owner key) m with ⟨err | ⟨own, r⟩, m₁⟩
  · unfold join at h
    rw [exec_bind_of_ok (exec_readContext_of_some hx),
      if_neg (by simp [Context.isSelecting_of_isSubquery sub]), exec_bind_of_error resolved] at h
    obtain ⟨-, rfl⟩ := Prod.mk.inj h
    exact .inl (contexts_of_resolveRelationship resolved)
  obtain ⟨contexts, next⟩ := contexts_of_resolveRelationship resolved
  have hx₁ : m₁.context? c = some x := (congrArg (·[c.index]?) contexts).trans hx
  rw [exec_join_of_resolved hx sub resolved] at h
  split at h
  · rename_i unmapped
    obtain ⟨correlates, none⟩ := Bool.and_eq_true_iff.mp unmapped
    rcases exec_joinUnmapped_eq_error hx₁ sub h with ⟨same, later⟩ | ⟨rfl, entity, v, y, hy, rfl⟩
    · exact .inl ⟨same.trans contexts, next.trans later⟩
    · refine .inr ⟨rfl, correlates, Option.isNone_iff_eq_none.mp none, m₁.next, entity, v, y, next,
        Nat.lt_succ_self _, hy, by rw [contexts]⟩
  · obtain ⟨same, later⟩ := exec_growJoin_eq_error h
    exact .inl ⟨same.trans contexts, next.trans later⟩

/-- What becomes of a join whose relationship was found. From a correlated root, outer joins and joins
through a pairing table are refused; from one that is a mapped class or alias, and from what is no
correlated root, other joins are accepted. -/
theorem exec_join_answers {own : Mapped} {r : Relationship} (hx : m.context? c = some x)
    (sub : x.isSubquery = true)
    (resolved : exec (resolveRelationship owner key) m = (.ok (own, r), m₁)) :
    (x.correlates owner = true →
      (outer.truth? m₁ = some true → (exec (c.join owner key outer) m).1 = .error .outerFromCorrelated) ∧
      (outer.truth? m₁ = some false → r.pairing?.isSome = true →
        (exec (c.join owner key outer) m).1 = .error .throughFromCorrelated)) ∧
    ((x.correlates owner = true → outer.truth? m₁ = some false ∧ r.pairing? = none ∧
        owner.source?.isSome = true) →
      ∃ v, (exec (c.join owner key outer) m).1 = .ok v) := by
  obtain ⟨contexts, -⟩ := contexts_of_resolveRelationship resolved
  have hx₁ : m₁.context? c = some x := (congrArg (·[c.index]?) contexts).trans hx
  have joins (mapped : (x.correlates owner && owner.source?.isNone) = false) :
      (exec (c.join owner key outer) m).1 =
        (x.join m₁.next (x.correlates owner) own r outer (outer.truth? m₁)).map Prod.fst := by
    rw [exec_join_of_resolved hx sub resolved, mapped, if_neg Bool.false_ne_true]
    exact exec_growJoin_answer hx₁ _
  refine ⟨fun correlates => ?_, fun accepts => ?_⟩
  · obtain ⟨outers, throughs, -⟩ := Context.join_correlated_answers sub m₁.next own r outer
      (outer.truth? m₁)
    cases mapped : owner.source?.isNone with
    | true =>
      rw [exec_join_of_resolved hx sub resolved, correlates, mapped]
      exact exec_joinUnmapped_answers
    | false =>
      rw [joins (by rw [correlates, mapped]; rfl), correlates]
      exact ⟨fun h => by rw [outers h]; rfl, fun h through => by rw [throughs h through]; rfl⟩
  · cases correlates : x.correlates owner with
    | true =>
      obtain ⟨inner, direct, mapped⟩ := accepts correlates
      obtain ⟨-, -, joined⟩ := Context.join_correlated_answers sub m₁.next own r outer
        (outer.truth? m₁)
      obtain ⟨v, y, hy⟩ := joined inner direct
      have isMapped : owner.source?.isNone = false := by
        rw [Option.isNone_eq_false_iff]
        exact mapped
      rw [joins (by rw [correlates, isMapped]; rfl), correlates, hy]
      exact ⟨v, rfl⟩
    | false =>
      rw [joins (by rw [correlates]; rfl), correlates]
      obtain ⟨b, hb⟩ := Option.isSome_iff_exists.mp (Context.isSelecting_of_isSubquery sub)
      unfold Context.join Context.updateBody
      simp only [Bool.false_eq_true, ↓reduceIte, hb]
      exact ⟨_, rfl⟩

end ContextId

namespace SubqueryCall

/-- The join that a call on this machine was accepted for, by its answer. -/
def joined? (c : ContextId) (m : Machine) (call : SubqueryCall) (r : Except Error Value) :
    Option Joined :=
  match call, r, m.context? c with
  | join owner key outer, .ok (.mapped target), some x =>
    match (exec (resolveRelationship owner key) m).1 with
    | .ok (own, r) => some ⟨own, r, target, outer, x.correlates owner⟩
    | .error _ => none
  | _, _, _ => none

theorem joined?_of_error {call : SubqueryCall} {e : Error} : call.joined? c m (.error e) = none := by
  cases call <;> rfl

theorem joined?_of_change? {call : SubqueryCall} {f : Context → Except Error Context}
    {r : Except Error Value} (h : call.change? c = some (f, v)) : call.joined? c m r = none := by
  cases call <;> first | rfl | cases h

/-- What a call does to a subquery. -/
theorem effect {call : SubqueryCall} {r : Except Error Value} (hx : m.context? c = some x)
    (sub : x.isSubquery = true) (h : exec (call.run c) m = (r, m')) :
    m.next ≤ m'.next ∧ ∃ y, m'.context? c = some y ∧
      Effect c x m.next m'.next call r (call.joined? c m r) y := by
  have unchanged {e : Error} (kept : m'.contexts = m.contexts ∧ m.next ≤ m'.next) (hr : r = .error e) :
      m.next ≤ m'.next ∧ ∃ y, m'.context? c = some y ∧
        Effect c x m.next m'.next call r (call.joined? c m r) y := by
    subst hr
    rw [joined?_of_error]
    exact ⟨kept.2, x, (congrArg (·[c.index]?) kept.1).trans hx, .refused⟩
  have changes {f : Context → Except Error Context} {v : Value}
      (change : call.change? c = some (f, v)) : m.next ≤ m'.next ∧ ∃ y, m'.context? c = some y ∧
        Effect c x m.next m'.next call r (call.joined? c m r) y := by
    rw [run_eq_of_change? change] at h
    rcases updated : exec (c.update f) m with ⟨err | u, m₁⟩
    · rw [exec_bind_of_error updated] at h
      obtain ⟨rfl, rfl⟩ := Prod.mk.inj h
      rw [ContextId.eq_of_update_eq_error updated] at *
      exact unchanged ⟨rfl, Nat.le_refl _⟩ rfl
    · rw [exec_bind_of_ok updated] at h
      obtain ⟨rfl, rfl⟩ := Prod.mk.inj h
      obtain ⟨z, y, hz, hy, rfl⟩ := exec_update_eq_ok.mp updated
      obtain rfl := Option.some.inj (hx.symm.trans hz)
      rw [joined?_of_change? change]
      exact ⟨Nat.le_refl _, y, context?_set hx y, .changed change hy⟩
  cases call with
  | root entity =>
    rw [run, ContextId.exec_addRoot hx sub] at h
    rcases r with err | v
    · exact unchanged (ContextId.exec_growRoot_eq_error h) rfl
    · obtain ⟨z, y, hz, hy, rfl⟩ := ContextId.exec_growRoot_eq_ok h
      obtain rfl := Option.some.inj (hx.symm.trans hz)
      exact ⟨Nat.le_succ _, y, context?_set hx y, .root ⟨Nat.le_refl _, Nat.lt_succ_self _⟩ hy⟩
  | join owner key outer =>
    rcases r with err | v
    · rcases ContextId.exec_join_eq_error hx sub h with
        kept | ⟨rfl, correlates, unmapped, k, entity, v, y, low, high, hy, contexts⟩
      · exact unchanged kept rfl
      · refine ⟨Nat.le_of_lt (Nat.lt_of_le_of_lt low high), y, ?_,
          .abandoned correlates unmapped ⟨low, high⟩ hy⟩
        exact (congrArg (·[c.index]?) contexts).trans (context?_set hx y)
    · obtain ⟨z, own, r, m₁, hz, -, resolved, mapped, grown⟩ := ContextId.exec_join_eq_ok h
      obtain rfl := Option.some.inj (hx.symm.trans hz)
      obtain ⟨z, y, truth, hz, hy, rfl⟩ := ContextId.exec_growJoin_eq_ok grown
      obtain ⟨contexts, next⟩ := ContextId.contexts_of_resolveRelationship resolved
      have hx₁ : m₁.context? c = some x := (congrArg (·[c.index]?) contexts).trans hx
      obtain rfl := Option.some.inj (hx₁.symm.trans hz)
      obtain ⟨rfl, -⟩ := Context.join_listing hy
      let j : Joined := ⟨own, r, ⟨r.target, some m₁.next⟩, outer, x.correlates owner⟩
      have accepted : (join owner key outer).joined? c m (.ok (.mapped j.target)) = some j := by
        simp only [joined?, hx, resolved, j]
      rw [accepted]
      refine ⟨Nat.le_succ_of_le next, y, context?_set hx₁ y,
        .joined (j := j) ⟨next, Nat.lt_succ_self _⟩ rfl (fun correlated => ?_) rfl hy⟩
      cases owner with
      | mapped o => exact congrArg Value.mapped (owner_of_resolveRelationship resolved).symm
      | _ => cases mapped correlated
  | correlate r => exact changes rfl
  | restrict r => exact changes rfl
  | groupBy items => exact changes rfl
  | having r => exact changes rfl
  | distinct v => exact changes rfl
  | select v => exact changes rfl

end SubqueryCall

end FluentQuery
