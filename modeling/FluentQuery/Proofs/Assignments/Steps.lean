import FluentQuery.Proofs.Assignments.Clauses
import FluentQuery.Proofs.Filters

/-! The steps of a chain that updates. An assignment evaluates its value, once and with the target,
and sets the attribute that its key names; the other steps ask for what they have to and set nothing. -/

namespace FluentQuery

open Sql

variable {call : Call} {builder w v : Value} {c : ContextId} {m m' : Machine}

/-! ### Steps -/

namespace Step

/-- The steps that streams of all kinds have; they set nothing. -/
def isCommon : Step → Bool
  | filter .. | peek _ | bind .. | bounded _ => true
  | _ => false

/-- What a step asks for when it is applied to this selection: its functions are called, and then its
Ref is bound. -/
def asks (w : Value) (step : Step) : List Request :=
  step.functions.map (.call · [w]) ++ (step.ref?.map .bind).toList

end Step

/-! ### Attributes -/

/-- What happens to an update: a request is carried out, or an attribute is set. -/
inductive Act where
  | asked (e : Event)
  | set (name : String) (value : Value)

namespace Act

def request? : Act → Option Request
  | asked e => some e.request
  | set .. => none

def name? : Act → Option String
  | asked _ => none
  | set name _ => some name

/-- The clauses that come of it, if those that calls add by themselves are `added`. -/
def clauses (added : Event → List (String × Value)) : Act → List (String × Value)
  | asked e => added e
  | set name value => [(name, value)]

end Act

/-- A run of steps with the target `w`, an entity or alias `e`, and all that happens to the update at
`c`, in order. A step that sets nothing asks for what it has to. An assignment sets the attribute that
its key names: to the value as it is, unless that is a function, and then to what a call of it with the
target gives. -/
inductive Assigns (call : Call) (c : ContextId) (e : Mapped) (w : Value) :
    Machine → List Step → List Act → Machine → Prop
  | nil {n : Machine} : Assigns call c e w n [] [] n
  | common {n n₁ n' : Machine} {step : Step} {steps : List Step} {es : List Event} {acts : List Act}
      (common : step.isCommon = true) (asked : es.map (·.request) = step.asks w)
      (happens : ∀ x ∈ es, x.Happens call) (quiet : Linked (Sets c []) n es n₁)
      (rest : Assigns call c e w n₁ steps acts n') :
      Assigns call c e w n (step :: steps) (es.map .asked ++ acts) n'
  | given {n n₁ n' : Machine} {key x : Value} {name : String} {steps : List Step} {acts : List Act}
      (plain : x.isAssigner = false) (named : key.attributeKey? = some name)
      (known : (e.attribute? name).isSome) (sets : Sets c [(name, x)] n n₁)
      (rest : Assigns call c e w n₁ steps acts n') :
      Assigns call c e w n (.assign key x :: steps) (.set name x :: acts) n'
  | called {n n₁ n₂ n' : Machine} {key f x : Value} {name : String} {steps : List Step}
      {acts : List Act} (function : f.isAssigner = true) (gave : exec (call f [w]) n = (.ok x, n₁))
      (named : key.attributeKey? = some name) (known : (e.attribute? name).isSome)
      (sets : Sets c [(name, x)] n₁ n₂) (rest : Assigns call c e w n₂ steps acts n') :
      Assigns call c e w n (.assign key f :: steps)
        (.asked ⟨.call f [w], .ok x, n, n₁⟩ :: .set name x :: acts) n'

namespace Assigns

variable {e : Mapped} {steps : List Step} {acts : List Act}

/-- Every step asks for what it has to, once and in order, whether or not it is overridden. -/
theorem requests (h : Assigns call c e w m steps acts m') :
    acts.filterMap Act.request? = steps.flatMap (·.asks w) := by
  induction h with
  | nil => rfl
  | common _ asked _ _ _ ih =>
    have own (es : List Event) : (es.map Act.asked).filterMap Act.request? = es.map (·.request) := by
      rw [List.filterMap_map, ← List.filterMap_eq_map]
      rfl
    rw [List.filterMap_append, ih, own, asked, List.flatMap_cons]
  | given plain _ _ _ _ ih =>
    rw [List.flatMap_cons, ← ih]
    simp [List.filterMap_cons, Act.request?, Step.asks, Step.functions, plain, Step.ref?]
  | called function _ _ _ _ _ ih =>
    rw [List.flatMap_cons, ← ih]
    simp [List.filterMap_cons, Act.request?, Step.asks, Step.functions, function, Step.ref?]

/-- The attributes that are set are those that the assignments name, in order. -/
theorem names (h : Assigns call c e w m steps acts m') :
    acts.filterMap Act.name? = steps.filterMap fun
      | .assign key _ => key.attributeKey?
      | _ => none := by
  induction h with
  | nil => rfl
  | @common _ _ _ step _ es _ common _ _ _ _ ih =>
    have none : (es.map Act.asked).filterMap Act.name? = [] := by
      simp [List.filterMap_map, Function.comp_def, Act.name?]
    rw [List.filterMap_append, none, ih]
    cases step <;> first | rfl | cases common
  | given _ named _ _ _ ih => simp [Act.name?, named, ih]
  | called _ _ named _ _ _ ih => simp [List.filterMap_cons, Act.name?, named, ih]

theorem happens (h : Assigns call c e w m steps acts m') :
    ∀ a, .asked a ∈ acts → a.Happens call := by
  induction h with
  | nil => simp
  | common _ _ happens _ _ ih =>
    intro a ha
    rcases List.mem_append.mp ha with own | later
    · obtain ⟨b, hb, same⟩ := List.mem_map.mp own
      cases same
      exact happens a hb
    · exact ih a later
  | given _ _ _ _ _ ih => exact fun a ha => ih a (by simpa using ha)
  | called _ gave _ _ _ _ ih =>
    intro a ha
    rcases List.mem_cons.mp ha with same | later
    · cases same
      exact gave
    · exact ih a (by simpa using later)

end Assigns

/-- Between events that add these clauses, and nothing else does, they are all that is added. -/
theorem Linked.sets {es : List Event} {added : Event → List (String × Value)}
    (h : Linked (Sets c []) m es m') (each : ∀ a ∈ es, Sets c (added a) a.before a.after) :
    Sets c (es.flatMap added) m m' := by
  induction h with
  | nil quiet => exact quiet
  | cons quiet _ ih =>
    obtain ⟨first, rest⟩ := List.forall_mem_cons.mp each
    exact quiet.trans (first.trans (ih rest))

/-- All that is added to the update comes of what happens, in that order. -/
theorem Assigns.sets {e : Mapped} {steps : List Step} {acts : List Act}
    {added : Event → List (String × Value)} (h : Assigns call c e w m steps acts m')
    (each : ∀ a, .asked a ∈ acts → Sets c (added a) a.before a.after) :
    Sets c (acts.flatMap (Act.clauses added)) m m' := by
  induction h with
  | nil => exact .of_contexts rfl
  | @common _ _ _ _ _ es _ _ _ _ quiet _ ih =>
    have own : (es.map Act.asked).flatMap (Act.clauses added) = es.flatMap added := by
      rw [List.flatMap_map]
      rfl
    rw [List.flatMap_append, own]
    refine (quiet.sets fun a ha => each a ?_).trans (ih fun a ha => each a ?_)
    · exact List.mem_append_left _ (List.mem_map_of_mem ha)
    · exact List.mem_append_right _ ha
  | given _ _ _ sets _ ih => exact sets.trans (ih fun a ha => each a (List.mem_cons_of_mem _ ha))
  | called _ gave _ _ sets _ ih =>
    refine (each _ List.mem_cons_self).trans (sets.trans (ih fun a ha => each a ?_))
    exact List.mem_cons_of_mem _ (List.mem_cons_of_mem _ ha)

end FluentQuery
