import FluentQuery.Proofs.Freezing.Refusals
import FluentQuery.Proofs.Meaning
import FluentQuery.Proofs.Structure

/-! Row bounds freeze the structure of a query. Once an operation has set one, every operation that
would change the structure is refused, and what may still follow leaves the query as it was, but for
its selection. -/

namespace FluentQuery

/-! ### Row bounds of a chain -/

/-- A row bound as operations leave it: not set, or a whole number that is not negative. -/
def Bound.IsProper (b : Bound) : Prop := b = .unset ∨ b.IsNatural

theorem Bound.IsProper.natural {b : Bound} (h : b.IsProper) (set : b.isSet) : b.IsNatural := by
  rcases h with rfl | h
  · rw [Stream.isSet_unset] at set
    cases set
  · exact h

namespace Stream

/-- Both row bounds of a stream are as operations leave them. -/
structure IsProper (s : Stream) : Prop where
  first : s.firstResult.IsProper
  max : s.maxResults.IsProper

/-- A stream over an entity starts without row bounds. -/
theorem unset_of_ofEntity {purpose : Purpose} {session entity : Value} {s : Stream} {m m' : Machine}
    (h : exec (ofEntity purpose session entity) m = (.ok s, m')) :
    s.firstResult = .unset ∧ s.maxResults = .unset := by
  replace h := (exec_guarded_eq_ok.mp h).2
  obtain ⟨t, m₁, -, h⟩ := exec_bind_eq_ok.mp h
  obtain ⟨id, m₂, -, h⟩ := exec_bind_eq_ok.mp h
  obtain ⟨id', m₃, -, h⟩ := exec_bind_eq_ok.mp h
  obtain ⟨rfl, -⟩ := exec_pure_eq_ok.mp h
  exact ⟨rfl, rfl⟩

variable {s t : Stream} {op : StreamOp} {ops : List StreamOp} {m m' : Machine}

/-- A bound that is set stays set, and an operation that sets one does. -/
theorem IsProper.apply (proper : s.IsProper) (h : exec (op.apply s) m = (.ok t, m')) :
    t.IsProper ∧ (s.isBounded ∨ op.isBounding → t.isBounded) := by
  have plain (hop : op.isBounding = false) :
      t.IsProper ∧ (s.isBounded ∨ op.isBounding → t.isBounded) := by
    obtain ⟨first, max⟩ := StreamOp.apply_bounds_eq h hop
    refine ⟨⟨first ▸ proper.first, max ▸ proper.max⟩, ?_⟩
    rintro (began | sets)
    · unfold isBounded at began ⊢
      rwa [first, max]
    · cases hop.symm.trans sets
  cases op with
  | assign => exact plain rfl
  | fluent op =>
    have gives := (Fluent.apply_gives h).bounds
    cases op with
    | limit n =>
      obtain ⟨first, x, -, natural, max⟩ := gives
      have set : t.maxResults.IsNatural := by
        rw [max]
        split
        · rename_i smaller
          exact proper.max.natural (by simp_all)
        · exact natural
      exact ⟨⟨first ▸ proper.first, .inr set⟩, fun _ => by simp [isBounded, set.isSet]⟩
    | skip n =>
      obtain ⟨max, x, -, natural, first⟩ := gives
      have set : t.firstResult.IsNatural := by
        split at first
        · rename_i old
          exact (proper.first.natural old).add natural first
        · rwa [first]
      exact ⟨⟨.inr set, max ▸ proper.max⟩, fun _ => by simp [isBounded, set.isSet]⟩
    | _ => exact plain rfl

theorem Chained.isProper (proper : s.IsProper) (chain : s.Chained ops t) : t.IsProper := by
  induction chain with
  | nil => exact proper
  | snoc _ applied ih => exact (ih.apply applied).1

/-- Along a chain row bounds are set as soon as one operation sets one, and they stay set. -/
theorem Chained.isBounded_iff (proper : s.IsProper) (chain : s.Chained ops t) :
    t.isBounded ↔ s.isBounded ∨ ∃ op ∈ ops, op.isBounding := by
  refine ⟨chain.isBounding_of_isBounded, fun h => ?_⟩
  induction chain with
  | nil => simpa using h
  | snoc chain applied ih =>
    refine ((chain.isProper proper).apply applied).2 ?_
    rcases h with began | ⟨x, mem, sets⟩
    · exact .inl (ih (.inl began))
    · rcases List.mem_append.mp mem with earlier | last
      · exact .inl (ih (.inr ⟨x, earlier, sets⟩))
      · exact .inr (List.mem_singleton.mp last ▸ sets)

end Stream

/-! ### What may still follow -/

/-- A step that says nothing about the structure of the query. -/
def Step.isAside : Step → Bool
  | peek _ | bind .. | map _ | bounded _ => true
  | _ => false

section Aside

variable {call : Call} {builder v w : Value} {c : ContextId} {x : Context} {m m' : Machine}

/-- A step aside leaves the query as it was, if its callable does. -/
theorem Step.apply_aside {step : Step} (aside : step.isAside) (hx : m.context? c = some x)
    (hq : Undisturbed m (step.evaluated call builder v m))
    (h : exec (step.apply call builder (.context c) v) m = (.ok w, m')) :
    m'.context? c = some x := by
  cases step with
  | peek f =>
    obtain ⟨_, m₁, hf, h⟩ := exec_bind_eq_ok.mp h
    obtain ⟨-, rfl⟩ := exec_pure_eq_ok.mp h
    have last : after (call f [v]) m = m₁ := by rw [← after_discard, after_eq hf]
    exact last ▸ hq.context c x hx
  | bind r p =>
    obtain ⟨u, m₁, hu, h⟩ := exec_bind_eq_ok.mp h
    obtain ⟨_, m₂, hr, h⟩ := exec_bind_eq_ok.mp h
    obtain ⟨-, rfl⟩ := exec_pure_eq_ok.mp h
    obtain ⟨-, rfl⟩ := exec_bindRef_eq_ok.mp hr
    have read : m₁.context? c = some x := after_eq hu ▸ hq.context c x hx
    exact read
  | map p => exact after_eq h ▸ hq.context c x hx
  | bounded b =>
    unfold apply at h
    dsimp only at h
    rw [exec_bind_of_ok (exec_readContext_of_some hx)] at h
    obtain ⟨-, rfl⟩ := exec_pure_eq_ok.mp (exec_guarded_eq_ok.mp h).2
    exact hx
  | _ => cases aside

theorem Step.applyAll_aside {steps : List Step} (aside : ∀ step ∈ steps, step.isAside)
    (hx : m.context? c = some x) (hq : OnlyCompute call builder (.context c) v steps m)
    (h : exec (Step.applyAll call builder (.context c) v steps) m = (.ok w, m')) :
    m'.context? c = some x := by
  induction steps generalizing v m with
  | nil => exact (exec_pure_eq_ok.mp h).2 ▸ hx
  | cons step steps ih =>
    obtain ⟨u, m₁, hs, h⟩ := exec_bind_eq_ok.mp h
    obtain ⟨first, others⟩ := List.forall_mem_cons.mp aside
    exact ih others (Step.apply_aside first hx hq.1 hs) (hq.2 u m₁ hs) h

end Aside

/-- An operation that changes no structure and does not count steps aside. -/
theorem StreamOp.isAside_of_structure? {op : StreamOp} {queryType : Value} {step : Step}
    (frozen : op.structure? = none) (uncounted : op ≠ .fluent .count)
    (hs : op.step? queryType = some step) : step.isAside := by
  cases op with
  | assign key v => cases frozen
  | fluent op =>
    cases op with
    | count => exact absurd rfl uncounted
    | withParams | withOptions => cases hs
    | peek | bind | map | limit | skip =>
      cases hs
      rfl
    | _ => cases frozen

/-- After a row bound was set, a chain without counts steps aside only. -/
theorem Stream.Chained.isAside {s t : Stream} {ops : List StreamOp} (proper : s.IsProper)
    (bounded : s.isBounded) (chain : s.Chained ops t) (uncounted : .fluent .count ∉ ops) :
    ∀ step ∈ StreamOp.steps s.queryType ops, step.isAside := by
  induction chain with
  | nil => exact fun _ h => by cases h
  | @snoc ops op t u m m' chain applied ih =>
    have frozen : op.structure? = none := by
      rcases hop : op.structure? with _ | name
      · rfl
      · obtain ⟨check, checks⟩ := StreamOp.checksBounds hop t.queryType
        have set := (chain.isBounded_iff proper).mpr (.inl bounded)
        rw [checks.not_isBounded applied] at set
        cases set
    intro step mem
    rw [StreamOp.steps, List.filterMap_append, List.mem_append] at mem
    rcases mem with earlier | last
    · exact ih (fun h => uncounted (List.mem_append_left _ h)) step earlier
    · obtain ⟨x, hx, hs⟩ := List.mem_filterMap.mp last
      obtain rfl := List.mem_singleton.mp hx
      exact StreamOp.isAside_of_structure? frozen
        (fun h => uncounted (h ▸ List.mem_append_right _ hx)) hs

theorem Stream.Chained.eq_of_nil {s t : Stream} (chain : s.Chained [] t) : t = s := by
  generalize empty : ([] : List StreamOp) = ops at chain
  cases chain with
  | nil => rfl
  | snoc => simp at empty

/-- A chain goes through the stream that its first operation gives. -/
theorem Stream.Chained.exists_first {s t : Stream} {op : StreamOp} {ops : List StreamOp}
    (chain : s.Chained (op :: ops) t) :
    ∃ u m m', exec (op.apply s) m = (.ok u, m') ∧ u.Chained ops t := by
  generalize split : op :: ops = all at chain
  induction chain generalizing ops with
  | nil => cases split
  | @snoc earlier last t v m m' chain applied ih =>
    cases earlier with
    | nil =>
      obtain ⟨rfl, rfl⟩ := List.cons.inj split
      obtain rfl := chain.eq_of_nil
      exact ⟨v, m, m', applied, .nil⟩
    | cons first earlier =>
      obtain ⟨rfl, rfl⟩ := List.cons.inj split
      obtain ⟨u, n, n', begins, rest⟩ := ih rfl
      exact ⟨u, n, n', begins, rest.snoc applied⟩

/-- From the operation on that sets a row bound, a chain without counts steps aside only. -/
theorem Stream.Chained.isAside_from {u t : Stream} {op : StreamOp} {later : List StreamOp}
    (proper : u.IsProper) (sets : op.isBounding) (rest : u.Chained (op :: later) t)
    (uncounted : .fluent .count ∉ later) :
    ∀ step ∈ StreamOp.steps u.queryType (op :: later), step.isAside := by
  obtain ⟨first, m, m', applied, goes⟩ := rest.exists_first
  obtain ⟨proper', bounded⟩ := proper.apply applied
  obtain ⟨b, hb⟩ := (StreamOp.isBounding_iff u.queryType).mp sets
  have steps : StreamOp.steps u.queryType (op :: later) =
      .bounded b :: StreamOp.steps u.queryType later := List.filterMap_cons_some hb
  have aside := goes.isAside proper' (bounded (.inr sets)) uncounted
  rw [(StreamOp.apply_continues applied).queryType] at aside
  rw [steps]
  exact List.forall_mem_cons.mpr ⟨rfl, aside⟩

/-! ### Builds -/

/-- Steps aside do not show in the structure of a build. -/
theorem Stream.Continues.unselected_eq {call : Call} {s t : Stream} {steps : List Step} {x : Context}
    {m : Machine} (hc : ∀ f args, Keeps Lasting (call f args)) (goes : s.Continues steps t)
    (aside : ∀ step ∈ steps, step.isAside) (built : t.Builds call m x) :
    ∃ o w m₁, s.Configures call m o w m₁ ∧
      (OnlyCompute call o.builder m.nextQuery w steps m₁ →
        ∀ y, s.Builds call m y → y.unselected = x.unselected) := by
  obtain ⟨o, v, m₂, x₂, configured, hx₂, hx⟩ := built.exists_configures hc
  obtain ⟨w, m₁, first, rest⟩ := goes.configures configured
  refine ⟨o, w, m₁, first, fun compute y hy => ?_⟩
  obtain ⟨o', w', m₁', y₁, again, hy₁, hy⟩ := hy.exists_configures hc
  obtain ⟨rfl, rfl, rfl⟩ := first.unique again
  have kept := Step.applyAll_aside aside hy₁ compute rest
  obtain rfl := Option.some.inj (hx₂.symm.trans kept)
  rw [hx, hy]

/-- However a stream over an entity is refined, once it has a row bound it is frozen, and so is every
stream refined from it. What it is built to shows, but for its selection, the query of the stream that
the first bound was set on, if nothing was counted since and the callables added since only compute.
That stream may be built at the same moment, or at another between which and this one the places its
functions read were left alone; then the two queries agree up to what each build makes. -/
theorem structure_frozen {purpose : Purpose} {session entity : Value} {s : Stream}
    {m₀ m₁ : Machine} (start : exec (Stream.ofEntity purpose session entity) m₀ = (.ok s, m₁)) :
    (∀ before later u t, s.Chained before u → u.isBounded → u.Chained later t →
      t.isBounded ∧ t.Frozen) ∧
    ∀ before op later u t, s.Chained before u → op.isBounding → u.Chained (op :: later) t →
      .fluent .count ∉ later → ∀ depth m x,
      let call := callAny (eval depth)
      t.Builds call m x → ∃ o w m₂, u.Configures call m o w m₂ ∧
        (m.settings.logging = false → w.isNull = false → ∃ y, u.Builds call m y) ∧
        (OnlyCompute call o.builder m.nextQuery w (StreamOp.steps u.queryType (op :: later)) m₂ →
          (∀ y, u.Builds call m y → y.unselected = x.unselected) ∧
          ∀ W F n y, u.Known W → u.Within F → u.Builds call n y →
            (m.Known W → m.Revisited F n →
              ∃ ρ : Renaming, ρ.Fixes m.extent ∧ y.unselected = x.unselected.rename ρ) ∧
            (n.Known W → n.Revisited F m →
              ∃ ρ : Renaming, ρ.Fixes n.extent ∧ x.unselected = y.unselected.rename ρ)) := by
  obtain ⟨first, max⟩ := Stream.unset_of_ofEntity start
  have proper : s.IsProper := ⟨.inl first, .inl max⟩
  refine ⟨fun before later u t chain bounded rest => ?_,
    fun before op later u t chain sets rest uncounted depth m x => ?_⟩
  · have still := (rest.isBounded_iff (chain.isProper proper)).mpr (.inl bounded)
    exact ⟨still, Stream.frozen_of_isBounded still⟩
  intro call built
  have lasts (f : Value) (args : List Value) : Keeps Lasting (call f args) :=
    callAny_eval_keeps depth f args
  have aside := rest.isAside_from (chain.isProper proper) sets uncounted
  obtain ⟨o, w, m₂, configured, same⟩ := rest.continues.unselected_eq lasts aside built
  refine ⟨o, w, m₂, configured, fun quiet something => ?_, fun compute => ?_⟩
  · exact configured.exists_builds lasts (callAny_eval_keeps depth) something quiet
  refine ⟨same compute, fun W F n y known reads again => ⟨fun hm later => ?_, fun hn earlier => ?_⟩⟩
  · obtain ⟨ρ, fixes, builds⟩ := Stream.builds_revisited hm known reads later depth
    obtain ⟨y₀, first, rfl⟩ := (builds y).mp again
    exact ⟨ρ, fixes, by rw [Context.unselected_rename, same compute y₀ first]⟩
  · obtain ⟨ρ, fixes, builds⟩ := Stream.builds_revisited hn known reads earlier depth
    refine ⟨ρ, fixes, ?_⟩
    rw [← Context.unselected_rename, same compute _ ((builds _).mpr ⟨y, again, rfl⟩)]

/-- The empty page of cheap products can no longer be made distinct. Whatever it selects, it is a page
of the query for all of them. -/
theorem structure_frozen_empty_page :
    let product : Value := .mapped ⟨.product, none⟩
    let cheap : Value := .closure ⟨0, ["p"],
      .compare .lt (.get (.variable "p") "price") (.literal (.int 5)), []⟩
    let look : Value := .closure ⟨1, ["p"], .variable "p", []⟩
    let one : Value := .closure ⟨2, ["p"], .literal (.int 1), []⟩
    let session : Value := .session ⟨1, ⟨some [], none, none⟩⟩
    let call := callAny (eval 3)
    ∃ s u t m x y,
      exec (Stream.ofEntity .search session product) (.start ⟨false, false, false⟩) = (.ok s, m) ∧
      s.Chained [.fluent (.filter cheap)] u ∧
      u.Chained [.fluent (.limit (.int 5 0)), .fluent (.peek look), .fluent (.map one)] t ∧
      exec (StreamOp.apply t (.fluent .distinct)) m = (.error (.afterBounds "distinct()"), m) ∧
      t.Builds call m x ∧ u.Builds call m y ∧ y.unselected = x.unselected := by
  intro product cheap look one session call
  let m : Machine := { Machine.start ⟨false, false, false⟩ with next := 5 }
  let type : Value := .queryType ⟨2, .search, product⟩
  let stream (id : Nat) (steps : List Step) (max : Bound) : Stream :=
    ⟨id, .of .search, session, type, .configurer ⟨id - 1, .root product, steps⟩, .unset, max, [], []⟩
  let filtering : Step := .filter type (.function cheap)
  let s := stream 4 [] .unset
  let u := stream 6 [filtering] .unset
  have start : exec (Stream.ofEntity .search session product) (.start ⟨false, false, false⟩) =
      (.ok s, m) := rfl
  have filtered : exec (StreamOp.apply s (.fluent (.filter cheap))) m =
      (.ok u, { m with next := 7 }) := by
    have selected : exec (selector "predicate" cheap) m = (.ok (.function cheap), m) := rfl
    unfold StreamOp.apply Fluent.apply Stream.filter
    dsimp only
    rw [exec_bind_of_ok selected, exec_bind_of_ok (Stream.exec_requireUnbounded rfl rfl _ _)]
    rfl
  have limited : exec (StreamOp.apply u (.fluent (.limit (.int 5 0)))) m =
      (.ok (stream 6 [filtering, .bounded .limit] (.number 0)), { m with next := 7 }) := by
    have natural : exec (Stream.requireNatural .limit (.int 5 0)) m = (.ok (.number 0), m) := rfl
    unfold StreamOp.apply Fluent.apply Stream.limit
    dsimp only
    rw [exec_bind_of_ok natural]
    simp only [u, stream, Stream.isSet_unset, Bool.false_and, Bool.false_eq_true, if_false]
    rfl
  have looked : exec (StreamOp.apply (stream 6 [filtering, .bounded .limit] (.number 0))
      (.fluent (.peek look))) m =
        (.ok (stream 6 [filtering, .bounded .limit, .peek look] (.number 0)),
          { m with next := 7 }) := rfl
  let t := stream 6 [filtering, .bounded .limit, .peek look, .map (.function one)] (.number 0)
  have named : exec (StreamOp.apply (stream 6 [filtering, .bounded .limit, .peek look] (.number 0))
      (.fluent (.map one))) m = (.ok t, { m with next := 7 }) := rfl
  have before : s.Chained [.fluent (.filter cheap)] u := .snoc .nil filtered
  have rest : u.Chained [.fluent (.limit (.int 5 0)), .fluent (.peek look),
      .fluent (.map one)] t := .snoc (.snoc (.snoc .nil limited) looked) named
  obtain ⟨_, _, built, -⟩ := exec_of_check (x := t.toContext call) (m := m) (fun _ _ => true)
    (by decide +kernel)
  obtain ⟨_, _, built', -⟩ := exec_of_check (x := u.toContext call) (m := m) (fun _ _ => true)
    (by decide +kernel)
  obtain ⟨x, hx⟩ := t.exists_builds (callAny_eval_keeps 3) built
  obtain ⟨y, hy⟩ := u.exists_builds (callAny_eval_keeps 3) built'
  obtain ⟨frozen, same⟩ := structure_frozen start
  obtain ⟨o, w, m₂, configured, -, compared⟩ :=
    same _ _ _ u t before rfl rest (by simp) 3 m x hx
  have compute : OnlyCompute call o.builder m.nextQuery w (StreamOp.steps u.queryType
      [.fluent (.limit (.int 5 0)), .fluent (.peek look), .fluent (.map one)]) m₂ :=
    ⟨.refl _, fun _ _ _ => ⟨⟨fun _ _ h => h, fun _ _ h => h⟩, fun _ _ _ =>
      ⟨⟨fun _ _ h => h, fun _ _ h => h⟩, fun _ _ _ => trivial⟩⟩⟩
  have refused : exec (StreamOp.apply t (.fluent .distinct)) m =
      (.error (.afterBounds "distinct()"), m) := by
    have distinct : exec (StreamOp.apply t.unbounded (.fluent .distinct)) m =
        (.ok (stream 6 [filtering, .bounded .limit, .peek look, .map (.function one), .distinct]
          .unset), { m with next := 7 }) := by
      unfold StreamOp.apply Fluent.apply Stream.distinct
      dsimp only
      rw [exec_bind_of_ok (Stream.exec_requireUnbounded rfl rfl _ _)]
      rfl
    obtain ⟨-, refuses⟩ := frozen _ _ _ t (before.snoc limited) (by decide +kernel)
      (.snoc (.snoc .nil looked) named)
    exact (refuses (.fluent .distinct) _ _ m _ rfl distinct).1
  exact ⟨s, u, t, m, x, y, start, before, rest, refused, hx, hy, (compared compute).1 y hy⟩

end FluentQuery
