import FluentQuery.Proofs.Assignments.Clauses
import FluentQuery.Proofs.Filters

/-! The statement of an update: it assigns to the columns among the attributes that are set, and there
is none if nothing is set. -/

namespace FluentQuery

open Sql

variable {e : Mapped} {values : List (String × Value)} {m : Machine} {x : Context} {v : Value}

namespace Context

theorem statement_update (hk : x.kind = .update (.mapped e) values) :
    x.statement m = if values.isEmpty then .error .noAssignments else do
      let conditions ← x.restriction.conditions
      return .update e (← assignments e.entity values) conditions := by
  unfold statement
  rw [hk]
  cases values <;> rfl

theorem statement_update_eq_ok {st : Statement} (hk : x.kind = .update (.mapped e) values)
    (h : x.statement m = .ok st) : values ≠ [] ∧ ∃ set conditions, st = .update e set conditions ∧
      assignments e.entity values = .ok set := by
  rw [statement_update hk] at h
  split at h
  · cases h
  · rename_i given
    obtain ⟨conditions, -, h⟩ := Except.bind_eq_ok.mp h
    obtain ⟨set, assigned, h⟩ := Except.bind_eq_ok.mp h
    exact ⟨by simpa using given, set, conditions, (Except.ok.inj h).symm, assigned⟩

end Context

namespace Executable

variable {q : Executable} {next : Nat}

/-- An update takes no parameters. -/
theorem eq_of_withParams_update {set : List Assignment} {conditions : List Term} {st : Statement}
    (h : q.withParams m (.update e set conditions) = .ok st) : st = .update e set conditions := by
  unfold withParams at h
  dsimp only at h
  split at h
  · exact (Except.ok.inj h).symm
  · split at h <;> cases h

end Executable

end FluentQuery
