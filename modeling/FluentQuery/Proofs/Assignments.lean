import FluentQuery.Proofs.Assignments.Statements
import FluentQuery.Proofs.Assignments.Steps

/-! The assignments of an update. A chain of an update stream evaluates the values of its assignments
in order, each once, with the target. The update sets an attribute to the value of its last assignment,
in the place of the first, and its statement assigns to the columns among these attributes. -/

namespace FluentQuery

open Sql

/-! ### Chains -/

section Builds

variable {call : Call} {s : Stream} {q : QueryType} {m m₁ m' : Machine} {o : Opening} {v w : Value}
  {T : Terminal}

/-- What a build of an update gives: the update at `c`, or a query ready to execute it. -/
inductive Value.Updates (c : ContextId) (m : Machine) : Value → Prop
  | context : Updates c m (.context c)
  | query {q x} (found : m.query? q = some x) (bulk : x.kind = .bulk)
      (criteria : x.query = .context c) : Updates c m (.query q)

variable {e : Mapped} {x : Context} {values : List (String × Value)}

namespace Value.Updates

/-- Its statements are those of the update. -/
theorem statement_eq_ok {c : ContextId} (h : v.Updates c m) (hx : m.context? c = some x)
    (hk : x.kind = .update (.mapped e) values) {st : Statement} (stands : v.StandsFor m st) :
    x.statement m = .ok st := by
  cases h with
  | context =>
    cases stands with
    | context hy stated =>
      obtain rfl := Option.some.inj (hx.symm.trans hy)
      exact stated
  | query found bulk criteria =>
    cases stands with
    | query found' stated =>
      obtain rfl := Option.some.inj (found.symm.trans found')
      rw [Executable.statement_eq bulk
        (Executable.criteria?_eq_some.mpr ⟨c, criteria, hx⟩)] at stated
      obtain ⟨bare, own, supplied⟩ := Except.bind_eq_ok.mp stated
      obtain ⟨-, set, conditions, rfl, -⟩ := Context.statement_update_eq_ok hk own
      rwa [Executable.eq_of_withParams_update supplied]

end Value.Updates

end Builds

/-! ### Values -/

/-- Of these clauses the last for each attribute counts, in the place of the first. -/
structure LastValues (clauses values : List (String × Value)) : Prop where
  keys : values.map Prod.fst = (clauses.map Prod.fst).eraseDups
  lookup : ∀ key, values.lookup key = clauses.reverse.lookup key

theorem LastValues.override {fields : List (String × Value)} (nodup : (fields.map Prod.fst).Nodup)
    (clauses : List (String × Value)) :
    LastValues (fields ++ clauses) (override fields clauses) := by
  have first : FluentQuery.override [] fields = fields := override_of_nodup nodup
  have same : FluentQuery.override fields clauses = FluentQuery.override [] (fields ++ clauses) := by
    rw [override_append, first]
  refine ⟨by rw [same, map_fst_override], fun key => ?_⟩
  rw [same, lookup_override]
  simp

end FluentQuery
