import FluentQuery.Proofs.CurrentFrame
import FluentQuery.Proofs.Refs.History

/-! What a build does to Refs. If the functions it calls leave Refs alone, the Refs of its steps
are bound one after another, each once and only if it held nothing; all others hold what they
held. -/

namespace FluentQuery

/-! ### Events -/

/-- The Ref a request binds. -/
def Request.ref? : Request → Option RefId
  | call .. => none
  | bind r => some r

theorem Request.ref?_eq_some {q : Request} {r : RefId} : q.ref? = some r ↔ q = .bind r := by
  cases q <;> simp [ref?]

/-- The Refs that were bound, in order. -/
def bound (es : List Event) : List RefId := es.filterMap (·.request.ref?)

theorem bound_append (es fs : List Event) : bound (es ++ fs) = bound es ++ bound fs :=
  List.filterMap_append

theorem bound_eq (es : List Event) : bound es = (es.map (·.request)).filterMap Request.ref? := by
  rw [List.filterMap_map]
  rfl

theorem mem_bound {es : List Event} {r : RefId} :
    r ∈ bound es ↔ ∃ e ∈ es, e.request = .bind r := by
  simp only [bound, List.mem_filterMap, Request.ref?_eq_some]

/-- A call that returns and leaves the Refs there are alone. -/
def Event.IsHarmless (e : Event) : Prop :=
  ∀ f, e.request.function? = some f → (∃ v, e.result = .ok v) ∧ e.before.refs <+: e.after.refs

/-- From `m` to `m'` the Refs of these events were bound, each once, and held nothing before. All
other Refs of `m` hold what they held. -/
structure Binds (m : Machine) (es : List Event) (m' : Machine) : Prop where
  grows : m.refs.length ≤ m'.refs.length
  kept : ∀ {r v}, m.ref? r = some v → m'.ref? r = some v
  news : ∀ e ∈ es, ∀ r, e.request = .bind r →
    m.ref? r = none ∧ ∃ v, e.result = .ok v ∧ m'.ref? r = some v
  others : ∀ {r}, r.index < m.refs.length → r ∉ bound es → m'.ref? r = m.ref? r
  once : (bound es).Nodup

namespace Binds

variable {a b c : Machine} {es fs : List Event}

theorem ref?_of_extends (h : a.refs <+: b.refs) {r : RefId} (known : r.index < a.refs.length) :
    b.ref? r = a.ref? r := by
  obtain ⟨news, hb⟩ := h
  rw [Machine.ref?, Machine.ref?, ← hb, List.getElem?_append_left known]

/-- No Ref is bound; there may be new ones. -/
theorem of_extends (h : a.refs <+: b.refs) : Binds a [] b where
  grows := h.length_le
  kept {r v} hv := by
    have known : r.index < a.refs.length := by
      by_contra outside
      simp [Machine.ref?, outside] at hv
    rw [ref?_of_extends h known, hv]
  news := by simp
  others known _ := ref?_of_extends h known
  once := .nil

theorem append (h : Binds a es b) (h' : Binds b fs c) : Binds a (es ++ fs) c where
  grows := Nat.le_trans h.grows h'.grows
  kept hv := h'.kept (h.kept hv)
  news e he r hr := by
    rcases List.mem_append.mp he with first | last
    · obtain ⟨free, v, hv, hb⟩ := h.news e first r hr
      exact ⟨free, v, hv, h'.kept hb⟩
    · obtain ⟨free, v, hv, hc⟩ := h'.news e last r hr
      refine ⟨?_, v, hv, hc⟩
      cases held : a.ref? r with
      | none => rfl
      | some w => simp [h.kept held] at free
  others {r} known outside := by
    rw [bound_append, List.mem_append, not_or] at outside
    rw [h'.others (Nat.lt_of_lt_of_le known h.grows) outside.2, h.others known outside.1]
  once := by
    rw [bound_append]
    refine List.nodup_append.mpr ⟨h.once, h'.once, ?_⟩
    rintro r first _ last rfl
    obtain ⟨e, he, hr⟩ := mem_bound.mp first
    obtain ⟨f, hf, hr'⟩ := mem_bound.mp last
    obtain ⟨-, v, -, hb⟩ := h.news e he r hr
    have free := (h'.news f hf r hr').1
    simp [hb] at free

/-- Binding a Ref that is there. -/
theorem of_bind {call : Call} {e : Event} {r : RefId} (hr : e.request = .bind r)
    (happens : e.Happens call) (known : r.index < e.before.refs.length) :
    Binds e.before [e] e.after := by
  obtain ⟨request, result, before, after⟩ := e
  obtain rfl : request = .bind r := hr
  obtain ⟨v, hv, run⟩ := happens
  dsimp only at hv run known ⊢
  obtain ⟨free, rfl⟩ := exec_bindRef_eq_ok.mp run
  have single : bound [⟨.bind r, result, before, before.write r (some v)⟩] = [r] := rfl
  constructor
  · simp
  · intro r' w hw
    exact ref?_write_of_bound free hw _
  · simp only [List.mem_singleton, forall_eq, Request.bind.injEq]
    rintro _ rfl
    exact ⟨free, v, hv, ref?_write known _⟩
  · intro r' _ outside
    rw [single, List.mem_singleton] at outside
    exact ref?_write_of_ne outside _ _
  · rw [single]
    exact List.nodup_cons.mpr ⟨List.not_mem_nil, .nil⟩

end Binds

/-- A run whose calls are harmless binds the Refs of its events and touches no others. -/
theorem Linked.binds {call : Call} {m m' : Machine} {es : List Event} (h : Linked Silent m es m')
    (happens : ∀ e ∈ es, e.Happens call) (harmless : ∀ e ∈ es, e.IsHarmless)
    (known : ∀ r ∈ bound es, r.index < m.refs.length) : Binds m es m' := by
  induction h with
  | nil quiet => exact .of_extends (quiet.refs ▸ List.prefix_rfl)
  | @cons m e es m' quiet _ ih =>
    obtain ⟨first, rest⟩ := List.forall_mem_cons.mp happens
    obtain ⟨tame, others⟩ := List.forall_mem_cons.mp harmless
    have start : Binds m [] e.before := .of_extends (quiet.refs ▸ List.prefix_rfl)
    have step : Binds e.before [e] e.after := by
      cases request : e.request with
      | call f args =>
        have silent : bound [e] = [] := by simp [bound, request, Request.ref?]
        have grown := Binds.of_extends (tame f (by rw [request]; rfl)).2
        exact ⟨grown.grows, grown.kept, by simp [request], fun hr _ => grown.others hr (by simp [bound]),
          by rw [silent]; exact .nil⟩
      | bind r =>
        refine .of_bind request first ?_
        rw [quiet.refs]
        exact known r (mem_bound.mpr ⟨e, List.mem_cons_self, request⟩)
    have begun := start.append step
    refine begun.append (ih rest others fun r hr => ?_)
    have later : r ∈ bound (e :: es) := by
      obtain ⟨f, hf, hr⟩ := mem_bound.mp hr
      exact mem_bound.mpr ⟨f, List.mem_cons_of_mem _ hf, hr⟩
    exact Nat.lt_of_lt_of_le (known r later) begun.grows

/-! ### Steps -/

/-- The Refs that steps bind, in order. -/
def Step.binds (steps : List Step) : List RefId := steps.filterMap Step.ref?

theorem bound_of_calls {fs args : List Value} {es : List Event}
    (h : es.map (·.request) <+: fs.map (.call · args)) : bound es = [] := by
  have calls := h.filterMap Request.ref?
  rw [← bound_eq, List.filterMap_map] at calls
  simpa [Function.comp_def, Request.ref?] using calls

theorem bound_of_binds {r? : Option RefId} {es : List Event}
    (h : es.map (·.request) = (r?.map .bind).toList) : bound es = r?.toList := by
  rw [bound_eq, h]
  cases r? <;> rfl

theorem Step.binds_cons (step : Step) (steps : List Step) :
    Step.binds (step :: steps) = step.ref?.toList ++ Step.binds steps := by
  unfold Step.binds
  rw [List.filterMap_cons]
  cases step.ref? <;> rfl

namespace Performs

variable {L : Machine → Machine → Prop} {call : Call} {builder query v w : Value}
  {steps before behind : List Step} {m n m' : Machine} {es : List Event} {r : Except Error Value}

theorem mono {L' : Machine → Machine → Prop} (h : Performs L call builder query v steps m es r m')
    (le : ∀ a b, L a b → L' a b) : Performs L' call builder query v steps m es r m' := by
  induction h with
  | nil => exact .nil
  | step applied calls binds leaves _ ih => exact .step (applied.mono le) calls binds leaves ih
  | stop applied calls => exact .stop (applied.mono le) calls

/-- Only Refs of the steps are bound, in the order of the steps, up to the step that failed. -/
theorem bound_prefix (h : Performs L call builder query v steps m es r m') :
    bound es <+: Step.binds steps := by
  induction h with
  | nil => exact List.prefix_rfl
  | step _ calls binds _ _ ih =>
    rw [bound_append, bound_append, bound_of_calls calls.map_request_prefix, bound_of_binds binds,
      List.nil_append, Step.binds_cons]
    exact (List.prefix_append_right_inj _).mpr ih
  | stop _ calls =>
    rw [bound_of_calls calls.map_request_prefix]
    exact List.nil_prefix

theorem bound_eq_of_ok (h : Performs L call builder query v steps m es (.ok w) m') :
    bound es = Step.binds steps := by
  generalize hr : (.ok w : Except Error Value) = r at h
  induction h with
  | nil => rfl
  | step _ calls binds _ _ ih =>
    rw [bound_append, bound_append, bound_of_calls calls.map_request_prefix, bound_of_binds binds,
      List.nil_append, Step.binds_cons, ih hr]
  | stop => cases hr

/-- A run whose first steps return is a run of these and then one of the others. -/
theorem split (h : Performs L call builder query v (before ++ behind) m es r m')
    (run : exec (Step.applyAll call builder query v before) m = (.ok w, n)) :
    ∃ fs gs, es = fs ++ gs ∧ Performs L call builder query v before m fs (.ok w) n ∧
      Performs L call builder query w behind n gs r m' := by
  induction before generalizing v m es with
  | nil =>
    obtain ⟨rfl, rfl⟩ := exec_pure_eq_ok.mp run
    exact ⟨[], es, rfl, .nil, h⟩
  | cons step before ih =>
    obtain ⟨u, m₁, first, run⟩ := exec_bind_eq_ok.mp run
    cases h with
    | step applied calls binds leaves rest =>
      obtain ⟨hu, rfl⟩ := Prod.mk.inj (applied.exec_eq.symm.trans first)
      obtain rfl := Except.ok.inj hu
      obtain ⟨fs, gs, rfl, done, left⟩ := ih rest run
      exact ⟨_, gs, by simp, .step applied calls binds leaves done, left⟩
    | stop applied _ =>
      cases (Prod.mk.inj (applied.exec_eq.symm.trans first)).1

end Performs

theorem Origin.bound_eq_nil {builder query : Value} {o : Origin} {es : List Event}
    (h : es.map (·.request) <+: o.requests builder query) : bound es = [] :=
  bound_of_calls h

namespace Configures

variable {L : Machine → Machine → Prop} {call : Call} {builder query v w : Value} {origin : Origin}
  {steps before behind : List Step} {m n m' : Machine} {es : List Event} {r : Except Error Value}

theorem mono {L' : Machine → Machine → Prop}
    (h : Configures L call builder query origin steps m es r m') (le : ∀ a b, L a b → L' a b) :
    Configures L' call builder query origin steps m es r m' := by
  cases h with
  | steps begins calls rest => exact .steps (begins.mono le) calls (rest.mono le)
  | stop begins calls => exact .stop (begins.mono le) calls

theorem bound_prefix (h : Configures L call builder query origin steps m es r m') :
    bound es <+: Step.binds steps := by
  cases h with
  | steps _ calls rest =>
    rw [bound_append, Origin.bound_eq_nil calls.map_request_prefix, List.nil_append]
    exact rest.bound_prefix
  | stop _ calls =>
    rw [Origin.bound_eq_nil calls.map_request_prefix]
    exact List.nil_prefix

theorem bound_eq_of_ok (h : Configures L call builder query origin steps m es (.ok w) m') :
    bound es = Step.binds steps := by
  cases h with
  | steps _ calls rest =>
    rw [bound_append, Origin.bound_eq_nil calls.map_request_prefix, List.nil_append,
      rest.bound_eq_of_ok]

/-- A configuration whose first steps return runs these first, which bind all of their Refs. -/
theorem split (h : Configures L call builder query origin (before ++ behind) m es r m')
    (run : exec (do
      let v ← origin.select call builder query
      Step.applyAll call builder query v before) m = (.ok w, n)) :
    ∃ fs gs, es = fs ++ gs ∧ Configures L call builder query origin before m fs (.ok w) n ∧
      Performs L call builder query w behind n gs r m' := by
  obtain ⟨v, m₁, first, run⟩ := exec_bind_eq_ok.mp run
  cases h with
  | steps begins calls rest =>
    obtain ⟨hv, rfl⟩ := Prod.mk.inj (begins.exec_eq.symm.trans first)
    obtain rfl := Except.ok.inj hv
    obtain ⟨fs, gs, rfl, done, left⟩ := rest.split run
    exact ⟨_, gs, by simp, .steps begins calls done, left⟩
  | stop begins _ =>
    cases (Prod.mk.inj (begins.exec_eq.symm.trans first)).1

end Configures

end FluentQuery
