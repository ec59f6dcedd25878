import FluentQuery.Proofs.Renaming.Value

/-! Footprints: the global variables and the addresses that a run may reach, and the expressions and
values that lead to no others. -/

namespace FluentQuery

open Sql

/-- Global variables by name, and what changes over time by address. -/
structure Footprint where
  globals : String → Prop
  address : Space → Nat → Prop

/-- The methods that send a statement to a session. -/
def sendingMethods : List String := ["fetch", "first", "one", "execute"]

mutual

/-- The expression reads no variables but `names`, notes nothing in the trace and sends nothing to a
session. -/
def Expr.Confined (names : String → Prop) : Expr → Prop
  | .literal _ | .fail _ | .entity _ | .session _ | .currentFrame | .currentSubquery | .depth
  | .parameter _ => True
  | .variable name => names name
  | .list es | .tuple es | .block es | .connect _ es | .sqlFunction _ es =>
    Expr.AllConfined names es
  | .assign _ e | .attempt e | .isInstance e _ | .get e _ | .shown e | .thread e | .task e | .not e
  | .among e _ | .sorted _ e => e.Confined names
  | .function params body => body.Confined fun name => name ∈ params ∨ names name
  | .apply f args => f.Confined names ∧ Expr.AllConfined names args
  | .trace _ => False
  | .identical a b | .equal a b | .sameHash a b | .arithmetic _ a b | .compare _ a b | .like a b
  | .set a _ b => a.Confined names ∧ b.Confined names
  | .construct _ args | .compose args | .transform args | .resolveAttribute args =>
    args.Confined names
  | .call e method args => method ∉ sendingMethods ∧ e.Confined names ∧ args.Confined names
  | .within builder query name body =>
    builder.Confined names ∧ query.Confined names ∧ body.Confined fun x => x = name ∨ names x

def Expr.AllConfined (names : String → Prop) : List Expr → Prop
  | [] => True
  | e :: es => e.Confined names ∧ Expr.AllConfined names es

def Expr.FieldsConfined (names : String → Prop) : List (String × Expr) → Prop
  | [] => True
  | (_, e) :: es => e.Confined names ∧ Expr.FieldsConfined names es

def Arguments.Confined (names : String → Prop) : Arguments → Prop
  | .mk positional keyword => Expr.AllConfined names positional ∧ Expr.FieldsConfined names keyword

end

mutual

/-- The value leads to no variables and addresses but those of the footprint. -/
def Value.Within (F : Footprint) : Value → Prop
  | .list _ items | .tuple _ items | .row _ items => Value.AllWithin F items
  | .closure c => c.Within F
  | .configurer c => c.Within F
  | .stream s => s.Within F
  | .queryType t => t.Within F
  | .queryBuilder _ session => session.Within F
  | .frame f => f.Within F
  | .ref r => F.address .refs r.index
  | .context c => F.address .contexts c.index
  | .query q => F.address .queries q.index
  | .mapping i => F.address .mappings i.index
  | .null | .bool _ | .int .. | .float .. | .text .. | .mapped _ | .member _ | .term .. | .statement ..
  | .criteriaBuilder _ | .session _ => True

def Value.AllWithin (F : Footprint) : List Value → Prop
  | [] => True
  | v :: vs => v.Within F ∧ Value.AllWithin F vs

def Value.FieldsWithin (F : Footprint) : List (String × Value) → Prop
  | [] => True
  | (_, v) :: fields => v.Within F ∧ Value.FieldsWithin F fields

def Closure.Within (F : Footprint) : Closure → Prop
  | .mk _ params body scope =>
    body.Confined (fun name => name ∈ params ∨ name ∈ scope.map Prod.fst ∨ F.globals name) ∧
      Value.FieldsWithin F scope

def QueryType.Within (F : Footprint) : QueryType → Prop
  | .mk _ _ entity => entity.Within F

def Frame.Within (F : Footprint) : Frame → Prop
  | .mk _ builder query => builder.Within F ∧ query.Within F

def Projection.Within (F : Footprint) : Projection → Prop
  | .whole => True
  | .named key => key.Within F
  | .function f => f.Within F
  | .held r => F.address .refs r.index

def Projection.KeysWithin (F : Footprint) : List (Projection × Value) → Prop
  | [] => True
  | (p, v) :: keys => p.Within F ∧ v.Within F ∧ Projection.KeysWithin F keys

def Ordering.Within (F : Footprint) : Ordering → Prop
  | .keys ks => Projection.KeysWithin F ks
  | .listed f => f.Within F

def Grouping.Within (F : Footprint) : Grouping → Prop
  | .key p => p.Within F
  | .listed f => f.Within F

def Step.Within (F : Footprint) : Step → Prop
  | .filter queryType p => queryType.Within F ∧ p.Within F
  | .peek f | .modify f | .transform f => f.Within F
  | .bind r p => F.address .refs r.index ∧ p.Within F
  | .distinct | .count | .bounded _ => True
  | .sort o => o.Within F
  | .group g => g.Within F
  | .having p | .map p => p.Within F
  | .addRoot r entity => F.address .refs r.index ∧ entity.Within F
  | .join key outer => key.Within F ∧ outer.Within F
  | .assign key value => key.Within F ∧ value.Within F

def Step.AllWithin (F : Footprint) : List Step → Prop
  | [] => True
  | step :: steps => step.Within F ∧ Step.AllWithin F steps

def Origin.Within (F : Footprint) : Origin → Prop
  | .root v | .correlated v | .function v => v.Within F

def Configurer.Within (F : Footprint) : Configurer → Prop
  | .mk _ origin steps => origin.Within F ∧ Step.AllWithin F steps

def Stream.Within (F : Footprint) : Stream → Prop
  | .mk _ _ session queryType configurer _ _ params options =>
    session.Within F ∧ queryType.Within F ∧ configurer.Within F ∧ Value.FieldsWithin F params ∧
      Value.FieldsWithin F options

end

attribute [simp] Value.Within Closure.Within QueryType.Within Frame.Within Projection.Within
  Ordering.Within Grouping.Within Step.Within Origin.Within Configurer.Within Stream.Within

variable {F : Footprint}

@[simp] theorem Value.allWithin_iff {vs : List Value} :
    Value.AllWithin F vs ↔ ∀ v ∈ vs, v.Within F := by
  induction vs with
  | nil => simp [Value.AllWithin]
  | cons v vs ih => simp [Value.AllWithin, ih]

@[simp] theorem Value.fieldsWithin_iff {fields : List (String × Value)} :
    Value.FieldsWithin F fields ↔ ∀ x ∈ fields, x.2.Within F := by
  induction fields with
  | nil => simp [Value.FieldsWithin]
  | cons x fields ih => simp [Value.FieldsWithin, ih]

@[simp] theorem Projection.keysWithin_iff {keys : List (Projection × Value)} :
    Projection.KeysWithin F keys ↔ ∀ x ∈ keys, x.1.Within F ∧ x.2.Within F := by
  induction keys with
  | nil => simp [Projection.KeysWithin]
  | cons x keys ih => simp [Projection.KeysWithin, ih, and_assoc]

@[simp] theorem Step.allWithin_iff {steps : List Step} :
    Step.AllWithin F steps ↔ ∀ step ∈ steps, step.Within F := by
  induction steps with
  | nil => simp [Step.AllWithin]
  | cons step steps ih => simp [Step.AllWithin, ih]

theorem Value.within_of_lookup {fields : List (String × Value)} (h : ∀ x ∈ fields, x.2.Within F)
    {name : String} {v : Value} (hv : fields.lookup name = some v) : v.Within F := by
  obtain ⟨before, rest, rfl, _⟩ := List.lookup_eq_some_iff.mp hv
  exact h (name, v) (by simp)

/-! ### Parts of a value within a footprint -/

theorem QueryType.Within.entity {t : QueryType} (h : t.Within F) : t.entity.Within F := by
  cases t; exact h

theorem Frame.Within.builder {f : Frame} (h : f.Within F) : f.builder.Within F := by
  cases f; exact h.1

theorem Frame.Within.query {f : Frame} (h : f.Within F) : f.query.Within F := by
  cases f; exact h.2

theorem Configurer.Within.origin {c : Configurer} (h : c.Within F) : c.origin.Within F := by
  cases c; exact h.1

theorem Configurer.Within.steps {c : Configurer} (h : c.Within F) :
    ∀ step ∈ c.steps, step.Within F := by
  cases c; exact Step.allWithin_iff.mp h.2

namespace Stream.Within

variable {s : Stream} (h : s.Within F)

include h

theorem session : s.session.Within F := by cases s; exact h.1

theorem queryType : s.queryType.Within F := by cases s; exact h.2.1

theorem configurer : s.configurer.Within F := by cases s; exact h.2.2.1

theorem params : ∀ x ∈ s.params, x.2.Within F := by
  cases s; exact Value.fieldsWithin_iff.mp h.2.2.2.1

theorem options : ∀ x ∈ s.options, x.2.Within F := by
  cases s; exact Value.fieldsWithin_iff.mp h.2.2.2.2

end Stream.Within

theorem Stream.within_of {s : Stream} (session : s.session.Within F)
    (queryType : s.queryType.Within F) (configurer : s.configurer.Within F)
    (params : ∀ x ∈ s.params, x.2.Within F) (options : ∀ x ∈ s.options, x.2.Within F) :
    s.Within F := by
  cases s
  exact ⟨session, queryType, configurer, Value.fieldsWithin_iff.mpr params,
    Value.fieldsWithin_iff.mpr options⟩

theorem Bound.toValue_within (b : Bound) : b.toValue.Within F := by
  cases b <;> exact trivial

end FluentQuery
