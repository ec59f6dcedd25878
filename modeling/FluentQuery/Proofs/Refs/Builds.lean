import FluentQuery.Proofs.Meaning.Steps
import FluentQuery.Proofs.Refs.Bindings

/-! Where a build stands when it comes to one of its steps, and what the Refs it binds and reads
hold there. -/

namespace FluentQuery

/-- The Refs a stream binds when it is built, in order. -/
def Stream.binds (s : Stream) : List RefId := Step.binds s.configurer.configured

/-- A build of `s` on `m` comes to `step`, behind the steps `before`, which returned: with the
selection `v` and on the machine `n`. -/
structure Reaches (call : Call) (T : Terminal) (s : Stream) (m : Machine) (before : List Step)
    (step : Step) (o : Opening) (v : Value) (n : Machine) : Prop where
  opens : T.opening s m = .ok o
  among : ∃ behind, s.configurer.configured = before ++ step :: behind
  returned : exec (do
    let v ← s.configurer.origin.select call o.builder m.nextQuery
    Step.applyAll call o.builder m.nextQuery v before) (o.inside m) = (.ok v, n)

/-! ### Openings -/

namespace Terminal

variable {T : Terminal} {s : Stream} {m : Machine} {o : Opening}

/-- What a build sets up is quiet, and writes to no Ref. -/
theorem opening_inside (h : T.opening s m = .ok o) :
    Silent m (o.inside m) ∧ (o.inside m).writes = m.writes := by
  have writes : o.machine.writes = m.writes := by
    cases hT : T.nests with
    | false =>
      obtain ⟨t, -, rfl⟩ := opening_of_not_nests hT h
      rfl
    | true =>
      obtain ⟨f, rest, -, -, rfl⟩ := opening_of_nests hT h
      rfl
  refine ⟨Inert.trans (opening_keeps h) (Silent.entered _ _ _), ?_⟩
  rw [← writes]
  unfold Opening.inside Machine.entered Machine.logged
  split <;> rfl

theorem run_keeps {R : Machine → Machine → Prop} [Guarantee R] {call : Call}
    (hc : ∀ f args, Keeps R (call f args)) (T : Terminal) (s : Stream) : Keeps R (T.run call s) := by
  cases T with
  | criteria => exact s.toContext_keeps hc
  | query => exact s.toQuery_keeps hc
  | subquery => exact s.asSubquery_keeps hc
  | existence => exact s.existence_keeps hc

end Terminal

/-! ### Failing steps -/

/-- What a step does before it binds its Ref returned, but the Ref is bound. -/
theorem Step.apply_alreadyBound {step : Step} {r : RefId} (hr : step.ref? = some r) {call : Call}
    {builder query v u : Value} {m m' : Machine}
    (work : exec (step.work call builder query v) m = (.ok u, m')) {e : Error} {n : Machine}
    (h : exec (step.apply call builder query v) m = (.error e, n)) : e = .alreadyBound := by
  rw [Step.apply_eq, exec_bind_of_ok work] at h
  simp only [finish, hr] at h
  by_cases bound : (m'.ref? r).isSome
  · rw [exec_bind_of_error (by rw [exec_bindRef, if_pos bound])] at h
    exact (Except.error.inj (Prod.mk.inj h).1).symm
  · rw [exec_bind_of_ok (by rw [exec_bindRef, if_neg bound])] at h
    cases h

namespace Reaches

variable {call : Call} {T : Terminal} {s : Stream} {m n : Machine} {before : List Step} {step : Step}
  {o : Opening} {v : Value}

/-- A step that fails fails the build. -/
theorem fails (h : Reaches call T s m before step o v n) {e : Error}
    (failed : (exec (step.apply call o.builder m.nextQuery v) n).1 = .error e) :
    (exec (T.run call s) m).1 = .error e := by
  obtain ⟨behind, configured⟩ := h.among
  obtain ⟨es, r, m₁, inside⟩ := configure_makes (L := Idle) call s.configurer o.builder m.nextQuery
    (o.inside m)
  have stopped : exec (configure call s.configurer o.builder m.nextQuery) (o.inside m) =
      (.error e, after (step.apply call o.builder m.nextQuery v) n) := by
    rw [configure_eq, configured]
    simp only [Step.applyAll_append, ← bind_assoc]
    rw [exec_bind_of_ok (by simpa only [bind_assoc] using h.returned), Step.applyAll]
    exact exec_bind_of_error (Prod.ext failed rfl) _
  obtain ⟨rfl, -⟩ := Prod.mk.inj (inside.exec_eq.symm.trans stopped)
  obtain ⟨r', m', makes, fails, -⟩ := T.run_leads h.opens inside
  rw [makes.exec_eq, fails e rfl]

variable {es : List Event} {r : Except Error Value} {m₁ : Machine}

/-- Up to a step a build has bound the Refs of the steps before, if its calls are harmless. -/
theorem binds_before (h : Reaches call T s m before step o v n)
    (run : Configures Idle call o.builder m.nextQuery s.configurer.origin s.configurer.configured
      (o.inside m) es r m₁)
    (harmless : ∀ e ∈ es, e.IsHarmless) (known : ∀ ref ∈ s.binds, ref.index < m.refs.length) :
    ∃ fs gs behind, es = fs ++ gs ∧ bound fs = Step.binds before ∧ Binds m fs n ∧
      (∀ e ∈ fs, e.Happens call) ∧ s.configurer.configured = before ++ step :: behind ∧
      Performs Idle call o.builder m.nextQuery v (step :: behind) n gs r m₁ := by
  obtain ⟨behind, configured⟩ := h.among
  rw [configured] at run
  obtain ⟨fs, gs, rfl, done, left⟩ := run.split h.returned
  have all := done.bound_eq_of_ok
  have makes := done.makes.mono fun _ _ => Silent.of_idle
  have linked := makes.linked.of_left (Terminal.opening_inside h.opens).1
  refine ⟨fs, gs, behind, rfl, all, ?_, makes.happens, configured, left⟩
  refine linked.binds makes.happens (fun e he => harmless e (List.mem_append_left _ he)) ?_
  intro ref hr
  rw [all] at hr
  refine known ref ?_
  rw [Stream.binds, configured, Step.binds, List.filterMap_append]
  exact List.mem_append_left _ hr

/-- A step whose own work returns fails because its Ref is bound: it was bound before the build, or
by an earlier step. -/
theorem refused (h : Reaches call T s m before step o v n)
    (run : Configures Idle call o.builder m.nextQuery s.configurer.origin s.configurer.configured
      (o.inside m) es r m₁)
    (harmless : ∀ e ∈ es, e.IsHarmless) (known : ∀ ref ∈ s.binds, ref.index < m.refs.length)
    {ref : RefId} (hr : step.ref? = some ref) {u : Value} {n' : Machine}
    (work : exec (step.work call o.builder m.nextQuery v) n = (.ok u, n'))
    (taken : (m.ref? ref).isSome ∨ ref ∈ Step.binds before) :
    (exec (T.run call s) m).1 = .error .alreadyBound := by
  obtain ⟨fs, gs, behind, rfl, all, binds, -, configured, left⟩ :=
    h.binds_before run harmless known
  have held : ∃ w, n.ref? ref = some w := by
    rcases taken with start | earlier
    · obtain ⟨w, hw⟩ := Option.isSome_iff_exists.mp start
      exact ⟨w, binds.kept hw⟩
    · rw [← all] at earlier
      obtain ⟨e, he, hr⟩ := mem_bound.mp earlier
      obtain ⟨-, w, -, hw⟩ := binds.news e he ref hr
      exact ⟨w, hw⟩
  obtain ⟨w, hw⟩ := held
  have there : ref.index < n.refs.length := by
    by_contra outside
    simp [Machine.ref?, outside] at hw
  cases left with
  | @step _ _ _ _ cs bs _ n₁ _ _ _ applied calls bindings leaves rest =>
    have silent := applied.mono fun _ _ => Silent.of_idle
    have events : bound (cs ++ bs) = [ref] := by
      rw [bound_append, bound_of_calls calls.map_request_prefix, bound_of_binds bindings, hr]
      rfl
    have inner := silent.linked.binds silent.happens
      (fun e he => harmless e (List.mem_append_right _ (List.mem_append_left _ he)))
      (by simpa [events] using there)
    obtain ⟨e, he, hb⟩ := mem_bound.mp (show ref ∈ bound (cs ++ bs) by simp [events])
    have free := (inner.news e he ref hb).1
    simp [hw] at free
  | stop applied _ =>
    obtain rfl := Step.apply_alreadyBound hr work applied.exec_eq
    exact h.fails (congrArg Prod.fst applied.exec_eq)

/-- What a Ref holds when a build comes to a step: what an earlier step bound, or else what it held
before the build. -/
theorem holds (h : Reaches call T s m before step o v n)
    (run : Configures Idle call o.builder m.nextQuery s.configurer.origin s.configurer.configured
      (o.inside m) es r m₁)
    (harmless : ∀ e ∈ es, e.IsHarmless) (known : ∀ ref ∈ s.binds, ref.index < m.refs.length)
    {ref : RefId} (there : ref.index < m.refs.length) :
    (ref ∉ Step.binds before → n.ref? ref = m.ref? ref) ∧
      (ref ∈ Step.binds before → ∃ e ∈ es, e.request = .bind ref ∧ e.Happens call ∧
        ∃ w, e.result = .ok w ∧ n.ref? ref = some w) := by
  obtain ⟨fs, gs, behind, rfl, all, binds, happens, -, -⟩ := h.binds_before run harmless known
  rw [← all]
  refine ⟨binds.others there, fun earlier => ?_⟩
  obtain ⟨e, he, hr⟩ := mem_bound.mp earlier
  obtain ⟨-, w, hw, hn⟩ := binds.news e he ref hr
  exact ⟨e, List.mem_append_left _ he, hr, happens e he, w, hw, hn⟩

end Reaches

/-! ### Sorting and grouping by a Ref -/

theorem RefId.exec_read_unbound {r : RefId} {m : Machine} (h : m.ref? r = none) :
    exec r.read m = (.error .unbound, m) := by
  unfold RefId.read
  rw [exec_bind_of_ok (exec_get m), h]
  rfl

theorem RefId.exec_read_bound {r : RefId} {m : Machine} {w : Value} (h : m.ref? r = some w) :
    exec r.read m = (.ok w, m) := by
  unfold RefId.read
  rw [exec_bind_of_ok (exec_get m), h]
  rfl

/-- The steps that sort or group by what a Ref holds. -/
inductive Step.ArrangesBy (r : RefId) : Step → Prop
  | sort (ascending : Value) : ArrangesBy r (.sort (.keys [(.held r, ascending)]))
  | group : ArrangesBy r (.group (.key (.held r)))

/-- The same step by the selection itself. -/
def Step.bySelection : Step → Step
  | .sort (.keys [(_, ascending)]) => .sort (.keys [(.whole, ascending)])
  | .group (.key _) => .group (.key .whole)
  | step => step

namespace Step.ArrangesBy

variable {r : RefId} {step : Step} (h : step.ArrangesBy r) {call : Call} {c : ContextId}
  {m : Machine} {x : Context} {b : SelectBody} {orders : List Value} (hx : m.context? c = some x)
  (hk : x.kind = .query b orders) (id : Nat) (v : Value)

include h hx hk

/-- While the Ref is unbound they fail. -/
theorem apply_unbound (free : m.ref? r = none) :
    exec (step.apply call (.criteriaBuilder id) (.context c) v) m = (.error .unbound, m) := by
  cases h with
  | sort ascending =>
    refine (exec_bind_of_ok (exec_requireOutermost hx hk _) _).trans (exec_bind_of_error ?_ _)
    refine (exec_bind_of_ok (exec_pure () m) _).trans (exec_bind_of_error ?_ _)
    exact RefId.exec_read_unbound free
  | group =>
    refine (exec_bind_of_ok (exec_requireOutermost hx hk _) _).trans (exec_bind_of_error ?_ _)
    exact exec_bind_of_error (RefId.exec_read_unbound free) _

/-- Otherwise they sort or group by what it holds, and leave the selection. -/
theorem apply_bound {w : Value} (held : m.ref? r = some w) :
    exec (step.apply call (.criteriaBuilder id) (.context c) v) m =
      exec (do
        let _ ← step.bySelection.apply call (.criteriaBuilder id) (.context c) w
        return v) m := by
  have built : (Value.criteriaBuilder id).requireBuilder = pure () := rfl
  have read := RefId.exec_read_bound held
  cases h with
  | sort ascending =>
    have outer := exec_requireOutermost (m := m) hx hk .sort
    simp only [apply, bySelection, Ordering.clauses, Ordering.clauses.ordered, Projection.read,
      bind_assoc, built, pure_bind]
    rw [exec_bind_of_ok outer, exec_bind_of_ok outer, exec_bind_of_ok read]
  | group =>
    have outer := exec_requireOutermost (m := m) hx hk .group
    simp only [apply, bySelection, Grouping.clauses, Projection.read, bind_assoc, pure_bind]
    rw [exec_bind_of_ok outer, exec_bind_of_ok outer, exec_bind_of_ok read]

end Step.ArrangesBy

namespace Reaches

variable {depth : Nat} {T : Terminal} {s : Stream} {m n : Machine} {before : List Step}
  {step : Step} {o : Opening} {v : Value}

/-- A search of its own is built with a builder of its own, and its context is still that of a
search when a step is reached. -/
theorem search (h : Reaches (callAny (eval depth)) T s m before step o v n)
    (hT : T = .criteria ∨ T = .query) {t : QueryType} (hs : s.queryType = .queryType t)
    (ht : t.purpose = .search) :
    o.builder = .criteriaBuilder m.next ∧ ∃ x b orders,
      n.context? m.nextContext = some x ∧ x.kind = .query b orders := by
  have opens : Terminal.criteria.opening s m = .ok o := by
    rcases hT with rfl | rfl <;> exact h.opens
  obtain ⟨t', ht', rfl⟩ := Terminal.exists_queryType opens
  obtain rfl : t' = t := Value.queryType.inj (ht'.symm.trans hs)
  refine ⟨rfl, ?_⟩
  have new : (after t'.createContext { m with next := m.next + 1 }).context? m.nextContext =
      some .query := by
    unfold QueryType.createContext
    rw [ht]
    exact List.getElem?_concat_length
  have runs : Lasting (Opening.inside ⟨.criteriaBuilder m.next, _⟩ m) n :=
    Keeps.of_exec ((Origin.select_keeps (callAny_eval_keeps depth) _ _ _).bind fun v =>
      Step.applyAll_keeps (callAny_eval_keeps depth) _ _ _ _) h.returned
  have lasts := Inert.trans (Opening.inside_lasts _ m) runs m.nextContext .query (by
    rw [Machine.created?, new]
    rfl)
  obtain ⟨x, hx, created⟩ := Option.map_eq_some_iff.mp lasts
  obtain ⟨restriction, kind⟩ := x
  cases kind with
  | query b orders => exact ⟨_, b, orders, hx, rfl⟩
  | _ => cases created

end Reaches

end FluentQuery
