import FluentQuery.Proofs.Lockstep.Programs
import FluentQuery.Proofs.Repetition

/-! A query of its own does not depend on where it is built. Its functions run inside a frame that the
build puts on the stack itself, so whatever is below that frame shows only to those that ask how deep
the stack is. -/

namespace FluentQuery

/-! ### Functions that do not ask for the depth of the stack -/

/-- One level of evaluation that refuses to tell the depth of the stack. -/
def depthlessStep (eval : Eval) (scope : Scope) : Expr → Run Value
  | .depth => fail .external
  | e => evalStep eval scope e

/-- Evaluation like `eval` that refuses to tell the depth of the stack. -/
def depthless : Nat → Eval
  | 0 => fun _ _ => fail .external
  | depth + 1 => depthlessStep (depthless depth)

/-- The functions this build of a query calls do not ask for the depth of the stack: it is the same
build if they are refused. -/
def Stream.IgnoresDepth (s : Stream) (depth : Nat) (m : Machine) : Prop :=
  exec (s.toContext (callAny (eval depth))) m = exec (s.toContext (callAny (depthless depth))) m

/-- It does not if none of the functions of the stream does. -/
theorem Stream.ignoresDepth_of {s : Stream} {depth : Nat} (m : Machine)
    (h : ∀ f ∈ s.configurer.origin.functions ++ s.configurer.configured.flatMap Step.functions,
      ∀ args n, exec (callAny (eval depth) f args) n = exec (callAny (depthless depth) f args) n) :
    s.IgnoresDepth depth m := by
  rcases opening : Terminal.criteria.opening s m with e | o
  · obtain ⟨m', makes⟩ := Terminal.criteria.run_makes_of_error (callAny (eval depth)) opening
    exact makes.exec_eq.trans (makes.replay fun _ he => absurd he List.not_mem_nil).exec_eq.symm
  · obtain ⟨es, r₁, m₁, run⟩ := Configures.exists_run (L := Idle) (callAny (eval depth)) o.builder
      m.nextQuery s.configurer.origin s.configurer.configured (o.inside m)
    have inside := run.makes
    simp only [← configure_eq] at inside
    obtain ⟨r, m', makes, -, -⟩ := Terminal.criteria.run_leads opening inside
    refine makes.exec_eq.trans (makes.replay fun e he => ?_).exec_eq.symm
    have happens := makes.happens e he
    unfold Event.Happens at happens ⊢
    split at happens
    · rename_i f args request
      rw [← h f ?_ args e.before]
      · exact happens
      · refine run.called_prefix.subset (List.mem_filterMap.mpr ⟨e, he, ?_⟩)
        rw [request]
        rfl
    · exact happens

theorem depthless_unswayed (depth : Nat) (scope : Scope) (e : Expr) :
    Unswayed .below (depthless depth scope e) := by
  induction depth generalizing scope e with
  | zero => exact .fail _
  | succ depth ih =>
    have nested (scope : Scope) (e : Expr) :
        Agrees Margin.below.inner (depthless depth scope e) (depthless depth scope e) := ih scope e
    cases e with
    | depth => exact .fail _
    | call v method args =>
      refine (ih _ _).agrees.bind fun v => (evalArguments_agrees nested _ _).bind fun a => ?_
      exact invoke_agrees (callAny_agrees nested) v (.inl nofun) a
    | _ => exact evalStep_agrees_of nested scope (by simp) (by simp)

/-! ### Two stacks -/

/-- The machine with another stack. -/
def Machine.onto (m : Machine) (stack : List Frame) : Machine := { m with stack }

theorem Stream.toContext_onto {s : Stream} {depth : Nat} {m : Machine} {stack : List Frame}
    (ignores : s.IgnoresDepth depth m) (ignores' : s.IgnoresDepth depth (m.onto stack)) :
    let build : Run Value := s.toContext (callAny (eval depth))
    (exec build (m.onto stack)).1 = (exec build m).1 ∧
      after build (m.onto stack) =
        { after build m with stack, log := (after build (m.onto stack)).log } := by
  intro build
  have agrees : Agrees .stack (s.toContext (callAny (depthless depth)))
      (s.toContext (callAny (depthless depth))) :=
    s.toContext_agrees (callAny_agrees (k := .stack) (depthless_unswayed depth))
  have abreast : Abreast .stack m (m.onto stack) := ⟨rfl, trivial, rfl⟩
  obtain ⟨result, left⟩ := agrees m _ abreast
  rw [after, after, ← show exec build m = _ from ignores,
    ← show exec build (m.onto stack) = _ from ignores'] at left
  rw [← show exec build m = _ from ignores,
    ← show exec build (m.onto stack) = _ from ignores'] at result
  have balanced : (after build (m.onto stack)).stack = stack :=
    s.toContext_keeps (R := SameStack) (callAny_eval_keeps depth) (m.onto stack)
  refine ⟨result, left.rest.trans ?_⟩
  unfold Machine.amid
  rw [show (exec build (m.onto stack)).2.settings = (exec build m).2.settings from left.settings,
    show (exec build (m.onto stack)).2.stack = stack from balanced]
  rfl

/-- What a query context stands for has nothing to do with the stack and the log. -/
theorem SameQuery.amid {ρ : Renaming} {m m' : Machine} {c : ContextId} (h : SameQuery ρ m m' c)
    (o : Machine) : SameQuery ρ m (m'.amid o) c where
  context := h.context
  statement := h.statement
  rendered := h.rendered

/-- The truth value that is described. -/
def Description.truth? : Description → Option Bool
  | bool b => some b
  | _ => none

theorem Description.eq_of_truth? {d : Description} {b : Bool} (h : d.truth? = some b) : d = .bool b := by
  cases d <;> simp_all [truth?]

theorem Value.eq_of_same_context {v : Value} {c : ContextId} (h : v.same (.context c) = true) :
    v = .context c := by
  cases v <;> simp_all [same]

/-- A query of its own is built alike on any two stacks, if no function the build calls asks how deep
the stack is. On one machine it is the very same build: it fails with the same error or gives the
same context, and it leaves the same query contexts, Refs, variables and trace, so the context is
described alike, with the same text and parameters. On two machines, one at a later moment that
still holds what the functions read, it gives the counterpart of the context, its statement reads
the same and has the same parameters, and every Ref holds the counterpart of what it holds after the
first build; what each build makes is renamed and nothing else. -/
theorem build_ignores_surroundings (depth : Nat) (s : Stream) :
    let build := s.toContext (callAny (eval depth))
    (∀ (m : Machine) (stack : List Frame),
      s.IgnoresDepth depth m → s.IgnoresDepth depth (m.onto stack) →
      let left := after build m
      let left' := after build (m.onto stack)
      (exec build (m.onto stack)).1 = (exec build m).1 ∧
        left' = { left with stack, log := left'.log } ∧
        ∀ v : Value, v.describe? left' = v.describe? left) ∧
    ∀ (w : Moment) (m m' : Machine) (F : Footprint), m.Known w → s.Known w → s.Within F →
      m.Revisited F (m'.onto m.stack) →
      s.IgnoresDepth depth m' → s.IgnoresDepth depth (m'.onto m.stack) →
      ∃ ρ : Renaming, ρ.Fixes m.extent ∧
        (exec build m').1 = (exec build m).1.map (Value.rename ρ) ∧
        (∀ c, (exec build m).1 = .ok (.context c) →
          SameQuery ρ (after build m) (after build m') c) ∧
        ∀ r : RefId, F.address .refs r.index →
          (after build m').ref? (r.rename ρ) = ((after build m).ref? r).map (Value.rename ρ) := by
  intro build
  refine ⟨fun m stack ignores ignores' => ?_, ?_⟩
  · obtain ⟨result, left⟩ := s.toContext_onto ignores ignores'
    refine ⟨result, left, fun v => ?_⟩
    rw [left]
    exact Machine.describe?_amid _ { after build m with stack, log := _ } v
  · intro w m m' F hm hs reads again ignores' ignores
    have own : Made m.extent s := fun ρ hρ => Stream.Known.fixed (hm.extent ▸ hρ) hs
    obtain ⟨ρ, fixes, result, alike⟩ := s.toContext_counterpart hm.wellMade again own reads depth
    have there : (m'.onto m.stack).onto m'.stack = m' := rfl
    rw [← there] at ignores'
    obtain ⟨same, left⟩ := s.toContext_onto ignores ignores'
    rw [there] at same left
    refine ⟨ρ, fixes, ?_, fun c hc => ?_, fun r hr => ?_⟩
    · rw [same, result.eq]
      rfl
    · rw [left]
      exact (SameQuery.of_alike alike (result.within (.context c) hc)).amid
        { after build (m'.onto m.stack) with stack := m'.stack, log := _ }
    · rw [left]
      exact (alike.ref? hr).eq

/-- A filter that traces whether its query is a subquery, at the top and inside another query. -/
theorem build_ignores_surroundings_traced :
    let product : Value := .mapped ⟨.product, none⟩
    let t : QueryType := ⟨3, .search, product⟩
    let f : Value := .closure ⟨5, ["p"], .block
      [.trace (.get .currentFrame "is_subquery"), .get (.variable "p") "active"], []⟩
    let s : Stream := ⟨2, .of .search, .null, .queryType t,
      .configurer ⟨4, .root product, [.filter (.queryType t) (.function f)]⟩,
      .unset, .unset, [], []⟩
    let m : Machine := { Machine.start ⟨false, false, false⟩ with next := 8, contexts := [.query] }
    let build := s.toContext (callAny (eval 4))
    (exec build m).1 = .ok (.context ⟨1⟩) ∧
      (exec build (m.onto [⟨6, .criteriaBuilder 6, .context ⟨0⟩⟩])).1 = .ok (.context ⟨1⟩) ∧
      (after build (m.onto [⟨6, .criteriaBuilder 6, .context ⟨0⟩⟩])).trace = [.bool false] := by
  intro product t f s m build
  have ignores (n : Machine) : s.IgnoresDepth 4 n := by
    refine s.ignoresDepth_of n fun g hg args n => ?_
    obtain rfl : g = f := by simpa [s, Value.origin, Value.configured, Origin.functions,
      Step.functions, Projection.functions] using hg
    cases args with
    | nil => rfl
    | cons v vs => cases vs <;> rfl
  obtain ⟨v, n, run, seen⟩ := exec_of_check (x := build) (m := m)
    (fun v n => v.same (.context ⟨1⟩) && n.trace.map Description.truth? == [some false])
    (by decide +kernel)
  obtain ⟨result, left, -⟩ := (build_ignores_surroundings 4 s).1 m
    [⟨6, .criteriaBuilder 6, .context ⟨0⟩⟩] (ignores _) (ignores _)
  rw [run] at result
  obtain ⟨context, trace⟩ := Bool.and_eq_true_iff.mp seen
  obtain ⟨d, traced, shown⟩ := List.map_eq_singleton_iff.mp (beq_iff_eq.mp trace)
  obtain rfl : d = .bool false := Description.eq_of_truth? shown
  rw [run, left, after_eq run, result, Value.eq_of_same_context context]
  exact ⟨rfl, rfl, traced⟩

end FluentQuery
