import FluentQuery.Proofs.Guarantee.Programs

/-! Fluent operations are lazy. An operation on a stream, accepted or refused, calls no function and
leaves every store as it was; all it makes is the next stream. -/

namespace FluentQuery

/-- The fluent operations by name. -/
def Stream.fluentMethods : List String :=
  ["bind", "peek", "filter", "limit", "skip", "with_params", "with_execution_options", "distinct",
    "order_by", "order_by_attributes", "order_by_multi", "group_by", "group_by_multi", "having",
    "add_root", "join", "map", "count", "set"]

/-! ### What stays as it was -/

/-- Refs, what was written to them, query contexts, executable queries, variables, the stack, what
was sent to sessions and the settings are as they were, and so are all mappings there were. -/
structure Untouched (m m' : Machine) : Prop where
  refs : m'.refs = m.refs
  writes : m'.writes = m.writes
  contexts : m'.contexts = m.contexts
  queries : m'.queries = m.queries
  globals : m'.globals = m.globals
  stack : m'.stack = m.stack
  trace : m'.trace = m.trace
  settings : m'.settings = m.settings
  mappings : m.mappings <+: m'.mappings

namespace Untouched

theorem refl (m : Machine) : Untouched m m := ⟨rfl, rfl, rfl, rfl, rfl, rfl, rfl, rfl, List.prefix_rfl⟩

theorem trans {a b c : Machine} (hab : Untouched a b) (hbc : Untouched b c) : Untouched a c where
  refs := hbc.refs.trans hab.refs
  writes := hbc.writes.trans hab.writes
  contexts := hbc.contexts.trans hab.contexts
  queries := hbc.queries.trans hab.queries
  globals := hbc.globals.trans hab.globals
  stack := hbc.stack.trans hab.stack
  trace := hbc.trace.trans hab.trace
  settings := hbc.settings.trans hab.settings
  mappings := hab.mappings.trans hbc.mappings

instance : Inert Untouched where
  refl := refl
  trans := trans
  fresh m := { refl m with }
  newMapping _ m := { refl m with mappings := List.prefix_append _ _ }
  log _ m := { refl m with }
  handle _ m := { refl m with }

end Untouched

/-! ### Fluent operations -/

namespace Stream

theorem fluentMethods_ne_terminal {method : String} (h : method ∈ fluentMethods) :
    method ≠ "configure" ∧ method ≠ "to_criteria_query" ∧ method ≠ "to_query" ∧
      method ≠ "as_subquery" ∧ method ≠ "exists" := by
  refine ⟨?_, ?_, ?_, ?_, ?_⟩ <;> rintro rfl <;> simp [fluentMethods] at h

section Calls

variable (call call' : Call) (s : Stream) {method : String} (h : method ∈ fluentMethods)
  (a : ArgList)

include h

theorem invokeSearch_uncalled :
    s.invokeSearch call method a = s.invokeSearch call' method a := by
  obtain ⟨-, -, -, hs, he⟩ := fluentMethods_ne_terminal h
  unfold invokeSearch
  split
  case h_12 => exact absurd rfl hs
  case h_13 => exact absurd rfl he
  all_goals rfl

theorem invoke_uncalled : s.invoke call method a = s.invoke call' method a := by
  obtain ⟨hc, ht, hq, -, -⟩ := fluentMethods_ne_terminal h
  unfold invoke
  split
  case h_1 => exact absurd rfl hc
  case h_3 => exact absurd rfl ht
  case h_4 => exact absurd rfl hq
  case h_12 => exact invokeSearch_uncalled call call' s h a
  all_goals rfl

theorem invokeSearch_fluent_keeps {R : Machine → Machine → Prop} [Inert R] :
    Keeps R (s.invokeSearch call method a) := by
  obtain ⟨-, -, -, hs, he⟩ := fluentMethods_ne_terminal h
  unfold invokeSearch
  split
  case h_12 => exact absurd rfl hs
  case h_13 => exact absurd rfl he
  all_goals grind

theorem invoke_fluent_keeps {R : Machine → Machine → Prop} [Inert R] :
    Keeps R (s.invoke call method a) := by
  obtain ⟨hc, ht, hq, -, -⟩ := fluentMethods_ne_terminal h
  unfold invoke
  split
  case h_1 => exact absurd rfl hc
  case h_3 => exact absurd rfl ht
  case h_4 => exact absurd rfl hq
  case h_12 => exact invokeSearch_fluent_keeps call s h a
  all_goals grind

/-- A fluent operation is no property, so what is run is the method. -/
theorem exec_invoke_fluent (m : Machine) :
    exec (FluentQuery.invoke call (.stream s) method a) m = exec (s.invoke call method a) m := by
  have noProperty : exec ((Value.stream s).property? method) m = (.ok none, m) := by
    simp only [fluentMethods, List.mem_cons, List.not_mem_nil, or_false] at h
    rcases h with rfl | rfl | rfl | rfl | rfl | rfl | rfl | rfl | rfl | rfl | rfl | rfl | rfl |
      rfl | rfl | rfl | rfl | rfl | rfl <;> rfl
  exact exec_bind_of_ok noProperty _

end Calls

end Stream

end FluentQuery
