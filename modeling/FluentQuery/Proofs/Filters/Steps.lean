import FluentQuery.Proofs.CurrentFrame
import FluentQuery.Proofs.Meaning.Steps

/-! What the steps of a chain do to the restriction. A filter joins its predicate to the one that
is there, and no other step touches it, provided that its callables do not. -/

namespace FluentQuery

open Sql

/-! ### Restrictions that stay -/

def Machine.restriction? (m : Machine) (c : ContextId) : Option Value :=
  (m.context? c).map (·.restriction)

/-- The query at `c` is restricted as it was. -/
def SameRestriction (c : ContextId) (m m' : Machine) : Prop :=
  ∀ r, m.restriction? c = some r → m'.restriction? c = some r

namespace SameRestriction

variable {c : ContextId}

theorem of_contexts {m m' : Machine} (h : m'.contexts = m.contexts) : SameRestriction c m m' := by
  intro r hr
  rwa [Machine.restriction?, Machine.context?, h]

theorem of_set {m m' : Machine} {d : ContextId} {x y : Context} (hx : m.context? d = some x)
    (h : m'.contexts = m.contexts.set d.index y) (hy : y.restriction = x.restriction) :
    SameRestriction c m m' := by
  intro r hr
  have told : m'.context? c = { m with contexts := m.contexts.set d.index y }.context? c :=
    congrArg (·[c.index]?) h
  rw [Machine.restriction?, told]
  by_cases hc : c = d
  · subst hc
    rw [Machine.restriction?, hx] at hr
    rw [context?_set hx, Option.map_some, hy]
    exact hr
  · rwa [context?_set_of_ne hc]

instance : Inert (SameRestriction c) :=
  .of_contexts (fun _ => of_contexts) fun hab hbc r h => hbc r (hab r h)

theorem newContext (x : Context) : Keeps (SameRestriction c) (ContextId.new x) := by
  intro m r hr
  obtain ⟨y, hy, rfl⟩ := Option.map_eq_some_iff.mp hr
  have old : c.index < m.contexts.length := (List.getElem?_eq_some_iff.mp hy).1
  have told : (after (ContextId.new x) m).context? c = m.context? c :=
    List.getElem?_append_left old
  rw [Machine.restriction?, told, hy]
  rfl

instance : Creating (SameRestriction c) := .of_contexts (fun _ => of_contexts) fun _ => newContext _

theorem update {d : ContextId} {f : Context → Except Error Context}
    (hf : ∀ {x y}, f x = .ok y → y.restriction = x.restriction) :
    Keeps (SameRestriction c) (d.update f) :=
  .update fun hx hy => of_set hx rfl (hf hy)

theorem updateGet {d : ContextId} {f : Context → Except Error (Value × Context)}
    (hf : ∀ {x v y}, f x = .ok (v, y) → y.restriction = x.restriction) :
    Keeps (SameRestriction c) (d.updateGet f) :=
  .updateGet fun hx hy => of_set hx rfl (hf hy)

end SameRestriction

/-! ### Operations that do not restrict -/

namespace Context

variable {x y : Context} {v : Value}

theorem restriction_updateBody {f : SelectBody → SelectBody} (h : x.updateBody f = .ok y) :
    y.restriction = x.restriction := by
  obtain ⟨b, -, rfl⟩ := updateBody_eq_ok.mp h
  rfl

theorem restriction_orderBy {items : List Value} (h : x.orderBy items = .ok y) :
    y.restriction = x.restriction := by
  obtain ⟨b, orders, -, rfl⟩ := orderBy_eq_ok h
  rfl

theorem restriction_having (h : x.having v = .ok y) : y.restriction = x.restriction :=
  restriction_updateBody (having_eq_ok h)

theorem restriction_select (h : x.select v = .ok y) : y.restriction = x.restriction :=
  restriction_updateBody (select_eq_ok h).2

theorem restriction_assign {key : String} (h : x.assign key v = .ok y) :
    y.restriction = x.restriction := by
  obtain ⟨target, fields, -, rfl⟩ := assign_eq_ok h
  rfl

theorem restriction_addRoot {fresh : Nat} {entity root : Value}
    (h : x.addRoot fresh entity = .ok (root, y)) : y.restriction = x.restriction :=
  restriction_updateBody (addRoot_eq_ok h).2.1

theorem restriction_join {fresh : Nat} {correlated : Bool} {owner : Mapped} {r : Relationship}
    {outer : Value} {truth : Option Bool}
    (h : x.join fresh correlated owner r outer truth = .ok (v, y)) :
    y.restriction = x.restriction := by
  obtain ⟨-, joined⟩ := join_eq_ok h
  cases joined with
  | planned _ hy => exact restriction_updateBody hy
  | correlated => rfl

end Context

section Operations

variable {c d : ContextId}

theorem ContextId.addRoot_same (entity : Value) :
    Keeps (SameRestriction c) (d.addRoot entity) := by
  unfold ContextId.addRoot
  refine d.read_keeps.bind fun x => ?_
  split
  · grind
  · exact Inert.fresh.bind fun _ => SameRestriction.updateGet Context.restriction_addRoot

theorem ContextId.joinUnmapped_same (r : Relationship) (outer : Value) :
    Keeps (SameRestriction c) (d.joinUnmapped r outer) := by
  unfold ContextId.joinUnmapped
  refine Keeps.get.bind fun m => ?_
  split
  · exact .fail _
  · exact .fail _
  · exact .fail _
  · exact (discard_keeps (addRoot_same _)).bind fun _ => .fail _

theorem ContextId.join_same (owner key outer : Value) :
    Keeps (SameRestriction c) (d.join owner key outer) := by
  unfold ContextId.join
  refine d.read_keeps.bind fun x => .guarded ?_
  refine (resolveRelationship_keeps _ _).bind fun (m, r) => ?_
  refine .ite (joinUnmapped_same r outer) (Inert.fresh.bind fun _ => ?_)
  exact Keeps.get.bind fun _ => SameRestriction.updateGet Context.restriction_join

theorem ContextId.assign_same (key v : Value) :
    Keeps (SameRestriction c) (d.assign key v) := by
  unfold ContextId.assign
  refine d.read_keeps.bind fun x => ?_
  split
  · refine (resolveAttribute_keeps _ _).bind fun a => ?_
    split
    · exact (register_keeps v).bind fun _ => SameRestriction.update Context.restriction_assign
    · exact .fail _
  · exact .fail _

theorem countSelection_same (builder v : Value) :
    Keeps (SameRestriction c) (countSelection builder d v) := by
  unfold countSelection
  refine d.read_keeps.bind fun x => ?_
  cases x.kind.body? with
  | none => exact .fail_bind _ _
  | some b =>
    refine .bind (.pure _) fun distinct => ?_
    refine (SameRestriction.update Context.restriction_updateBody).bind fun _ => ?_
    split <;> grind

theorem QueryType.select_same (t : QueryType) (query w : Value) :
    Keeps (SameRestriction c) (t.select query w) := by
  unfold QueryType.select
  split
  · exact .pure _
  · exact .pure _
  · split
    · refine ContextId.read_keeps _ |>.bind fun x => .guarded ?_
      exact (SameRestriction.update Context.restriction_select).bind fun _ => .pure _
    · exact (classNow_keeps _).bind fun _ => .fail _

end Operations

/-! ### Steps -/

/-- The machine after a step has run its callables and read its attributes. -/
def Step.called (call : Call) (builder query v : Value) (m : Machine) : Step → Machine
  | assign _ a => after (assignedValue call v a) m
  | modify f | transform f => after (call f [builder, query, v]) m
  | step => step.evaluated call builder v m

/-- From this selection and machine on, no callable of the steps replaces the restriction of the
query at `c`. -/
def LeaveRestriction (call : Call) (builder : Value) (c : ContextId) :
    Value → List Step → Machine → Prop
  | _, [], _ => True
  | v, step :: steps, m =>
    SameRestriction c m (step.called call builder (.context c) v m) ∧
      ∀ w m', exec (step.apply call builder (.context c) v) m = (.ok w, m') →
        LeaveRestriction call builder c w steps m'

/-- What the predicate of a filter gives on the selection. -/
def Step.predicate? (call : Call) (v : Value) (m : Machine) : Step → Option Value
  | filter _ p => (exec (p.read call v) m).1.toOption
  | _ => none

/-- What the predicates of the filters among the steps give, in order. -/
def Step.predicates (call : Call) (builder query : Value) :
    Value → List Step → Machine → List Value
  | _, [], _ => []
  | v, step :: steps, m =>
    (step.predicate? call v m).toList ++
      match exec (step.apply call builder query v) m with
      | (.ok w, m') => Step.predicates call builder query w steps m'
      | (.error _, _) => []

section Running

variable {call : Call} {builder v w r : Value} {c : ContextId} {m m' : Machine}

/-- What comes behind a computation that changes nothing starts where that did. -/
theorem after_bind_of_still {α β : Type} {R : Machine → Machine → Prop} [Inert R] {x : Run α}
    {f : α → Run β} (still : after x m = m) (hf : ∀ a, R m (after (f a) m)) :
    R m (after (x >>= f) m) := by
  rcases hx : exec x m with ⟨e | a, m₁⟩
  · rw [after, exec_bind_of_error hx, ← after_eq hx, still]
    exact Inert.refl m
  · rw [after_bind_of_ok hx, ← after_eq hx, still]
    exact hf a

theorem after_readContext (d : ContextId) (m : Machine) : after d.read m = m := by
  rw [after, exec_readContext]
  split <;> rfl

theorem after_requireOutermost (query : Value) (a : Arranging) (m : Machine) :
    after (requireOutermost query a) m = m := by
  unfold requireOutermost
  cases query with
  | context d =>
    rcases hx : m.context? d with _ | x
    · rw [after, exec_bind, exec_readContext, hx]
    · rw [after, exec_bind_of_ok (exec_readContext_of_some hx)]
      split <;> rfl
  | _ => rfl

/-- A step that is no filter leaves the restriction, if its callables do. -/
theorem Step.apply_same {step : Step} (noFilter : ∀ q p, step ≠ filter q p)
    (kept : SameRestriction c m (step.called call builder (.context c) v m)) :
    SameRestriction c m (after (step.apply call builder (.context c) v) m) := by
  have here {α : Type} (f : ContextId → Run α) :
      ((Value.context c).asContext >>= f) = f c := pure_bind c f
  cases step with
  | filter q p => exact absurd rfl (noFilter q p)
  | peek f =>
    refine Keeps.over_rest (fun _ => .pure _) ?_
    rw [after_discard]
    exact kept
  | bind r p => exact Keeps.over_rest (fun u => (Creating.bind r u).bind fun _ => .pure _) kept
  | distinct =>
    unfold apply
    rw [here]
    exact (SameRestriction.update Context.restriction_updateBody).bind (fun _ => .pure _) m
  | sort o =>
    refine after_bind_of_still (after_requireOutermost _ _ m) fun d => ?_
    refine Keeps.over_rest (fun items => ?_) kept
    exact (SameRestriction.update Context.restriction_orderBy).bind fun _ => .pure _
  | group g =>
    refine after_bind_of_still (after_requireOutermost _ _ m) fun d => ?_
    refine Keeps.over_rest (fun items => ?_) kept
    exact (SameRestriction.update Context.restriction_updateBody).bind fun _ => .pure _
  | having p =>
    change SameRestriction c m (after (c.read >>= _) m)
    refine after_bind_of_still (after_readContext c m) fun x => ?_
    split
    · exact Inert.refl m
    · refine Keeps.over_rest (fun condition => ?_) kept
      exact (SameRestriction.update Context.restriction_having).bind fun _ => .pure _
  | addRoot r entity =>
    unfold apply
    rw [here]
    exact (c.addRoot_same entity).bind (fun u => (Creating.bind r u).bind fun _ => .pure _) m
  | join key outer =>
    unfold apply
    rw [here]
    exact c.join_same v key outer m
  | map p => exact kept
  | count =>
    unfold apply
    rw [here]
    exact countSelection_same builder v m
  | assign key a =>
    change SameRestriction c m (after (c.read >>= _) m)
    refine after_bind_of_still (after_readContext c m) fun x => ?_
    split
    · exact Inert.refl m
    · exact Keeps.over_rest (fun u => (c.assign_same key u).bind fun _ => .pure _) kept
  | bounded b =>
    refine after_bind_of_still (after_readContext c m) fun x => ?_
    split <;> exact Inert.refl m
  | modify f =>
    refine Keeps.over_rest (fun _ => .pure _) ?_
    rw [after_discard]
    exact kept
  | transform f => exact kept

/-- A filter joins its predicate to the restriction, and no other step touches it. -/
theorem Step.apply_conjoins {step : Step} (hr : m.restriction? c = some r)
    (kept : SameRestriction c m (step.called call builder (.context c) v m))
    (h : exec (step.apply call builder (.context c) v) m = (.ok w, m')) :
    ∃ r', m'.restriction? c = some r' ∧ Conjoined r (step.predicate? call v m).toList r' := by
  by_cases isFilter : ∃ q p, step = filter q p
  · obtain ⟨q, p, rfl⟩ := isFilter
    obtain ⟨e, m₁, he, h⟩ := exec_bind_eq_ok.mp h
    have evaluated : m₁.restriction? c = some r := by
      have := kept r hr
      rwa [show (filter q p).called call builder (.context c) v m = m₁ from after_eq he] at this
    obtain ⟨x, hx, rfl⟩ := Option.map_eq_some_iff.mp evaluated
    rw [exec_bind_of_ok (exec_asContext c m₁)] at h
    obtain ⟨joint, m₂, hj, h⟩ := exec_bind_eq_ok.mp h
    cases q with
    | queryType t =>
      obtain ⟨_, m₃, hs, h⟩ := exec_bind_eq_ok.mp h
      obtain ⟨rfl, rfl⟩ := exec_pure_eq_ok.mp h
      obtain ⟨hnull, y, hy, rfl⟩ := exec_restrict hs
      refine ⟨joint, ?_, ?_⟩
      · rw [Machine.restriction?, context?_set hy]
        rfl
      · rw [predicate?, he]
        exact exec_conjoin hx hj hnull
    | _ => cases h
  · have noFilter : ∀ q p, step ≠ filter q p := fun q p hs => isFilter ⟨q, p, hs⟩
    have none : step.predicate? call v m = none := by
      cases step <;> first | rfl | exact absurd rfl (noFilter _ _)
    refine ⟨r, ?_, none ▸ .nil⟩
    rw [← after_eq h]
    exact Step.apply_same noFilter kept r hr

/-- A run of steps joins the predicates of its filters to the restriction, in order. -/
theorem Step.applyAll_conjoins {steps : List Step} (hr : m.restriction? c = some r)
    (leave : LeaveRestriction call builder c v steps m)
    (h : exec (Step.applyAll call builder (.context c) v steps) m = (.ok w, m')) :
    ∃ r', m'.restriction? c = some r' ∧
      Conjoined r (Step.predicates call builder (.context c) v steps m) r' := by
  induction steps generalizing v r m with
  | nil =>
    obtain ⟨rfl, rfl⟩ := exec_pure_eq_ok.mp h
    exact ⟨r, hr, .nil⟩
  | cons step steps ih =>
    obtain ⟨u, m₁, hs, h⟩ := exec_bind_eq_ok.mp h
    obtain ⟨r₁, hr₁, first⟩ := Step.apply_conjoins hr leave.1 hs
    obtain ⟨r₂, hr₂, rest⟩ := ih hr₁ (leave.2 u m₁ hs) h
    refine ⟨r₂, hr₂, ?_⟩
    rw [predicates, hs]
    exact first.append rest

end Running

end FluentQuery
