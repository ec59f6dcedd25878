import FluentQuery.Proofs.Associations
import FluentQuery.Proofs.Freezing
import FluentQuery.Proofs.Parameters.Wrapping
import FluentQuery.Proofs.RowBounds
import Mathlib.Algebra.BigOperators.Group.List.Basic
import Mathlib.Algebra.Ring.Int.Defs
import Mathlib.Data.List.Induction

/-! The fields of a node, from the chain that led to it: offsets add up, of several limits the
smallest counts, parameters and options override earlier ones, and nothing else touches any of
them. -/

namespace FluentQuery

open Sql

/-! ### Folds of bounds -/

namespace Bound

/-- An offset after one more skip. -/
def plus? (old x : Bound) : Option Bound := if old.isSet then old.add? x else some x

/-- A limit after one more. -/
def capped (old x : Bound) : Bound := if old.isSet && old.lt x then old else x

theorem shown?_unset : unset.shown? = none := by
  unfold shown?
  rw [if_neg (by simp [Stream.isSet_unset])]

variable {b c : Bound} {n k : Int}

theorem IsNatural.shown? (h : b.IsNatural) : b.shown? = b.whole? := by
  unfold Bound.shown?
  rw [if_pos h.isSet]

/-- Whole numbers are compared as such. -/
theorem lt_of_whole? (hb : b.whole? = some n) (hc : c.whole? = some k) :
    b.lt c = decide (n < k) := by
  have position {a : Bound} {i : Int} (h : a.whole? = some i) : a.position? = some (.ofInt i) := by
    cases a <;> simp_all [whole?, position?]
  have positive : (0 : Int) < Binary64.unitsPerOne := by decide +kernel
  unfold lt
  rw [position hb, position hc]
  simp only [Position.ofInt, Position.lt, Int.mul_lt_mul_right positive]

theorem IsProper.plus? (proper : b.IsProper) (hc : c.whole? = some n) (nonneg : 0 ≤ n) :
    ∃ sum, b.plus? c = some sum ∧ sum.IsNatural ∧ sum.shown? = some (b.shown?.getD 0 + n) := by
  have natural : c.IsNatural := ⟨n, hc, nonneg⟩
  unfold Bound.plus?
  rcases proper with rfl | old
  · rw [if_neg (by simp [Stream.isSet_unset]), shown?_unset]
    exact ⟨c, rfl, natural, by rw [natural.shown?, hc, Option.getD_none, Int.zero_add]⟩
  · obtain ⟨k, hk, _⟩ := id old
    have sum : b.add? c = some (.number (k + n)) := by simp only [add?, hk, hc]
    have set := old.add natural sum
    rw [if_pos old.isSet]
    refine ⟨_, sum, set, ?_⟩
    rw [set.shown?, old.shown?, hk]
    rfl

theorem IsProper.capped (proper : b.IsProper) (hc : c.whole? = some n) (nonneg : 0 ≤ n) :
    (b.capped c).IsNatural ∧ (b.capped c).shown? = (b.shown?.toList ++ [n]).min? := by
  have natural : c.IsNatural := ⟨n, hc, nonneg⟩
  unfold Bound.capped
  rcases proper with rfl | old
  · rw [if_neg (by simp [Stream.isSet_unset]), shown?_unset, natural.shown?, hc]
    exact ⟨natural, rfl⟩
  · obtain ⟨k, hk, _⟩ := id old
    rw [old.isSet, Bool.true_and, lt_of_whole? hk hc, old.shown?, hk]
    change _ ∧ _ = some (min k n)
    by_cases less : k < n
    · rw [if_pos (by simpa using less), Int.min_eq_left (Int.le_of_lt less), old.shown?, hk]
      exact ⟨old, rfl⟩
    · rw [if_neg (by simpa using less), Int.min_eq_right (Int.not_lt.mp less), natural.shown?, hc]
      exact ⟨natural, rfl⟩

variable {xs : List Bound}

/-- Offsets that are whole numbers add up. -/
theorem foldlM_plus? (natural : ∀ x ∈ xs, x.IsNatural) (proper : b.IsProper)
    (h : xs.foldlM Bound.plus? b = some c) :
    c.shown? = if xs = [] then b.shown?
      else some (b.shown?.getD 0 + (xs.filterMap Bound.whole?).sum) := by
  induction xs generalizing b with
  | nil =>
    obtain rfl := Option.some.inj h
    rw [if_pos rfl]
  | cons x xs ih =>
    obtain ⟨n, hn, nonneg⟩ := natural x List.mem_cons_self
    obtain ⟨sum, added, set, shown⟩ := proper.plus? hn nonneg
    rw [List.foldlM_cons, added] at h
    rw [ih (fun y hy => natural y (List.mem_cons_of_mem _ hy)) (.inr set) h, shown,
      if_neg (List.cons_ne_nil x xs), List.filterMap_cons_some hn, List.sum_cons]
    split
    · rename_i last
      rw [last, List.filterMap_nil, List.sum_nil, Int.add_zero]
    · rw [Option.getD_some, Int.add_assoc]

/-- Of limits that are whole numbers the smallest counts. -/
theorem foldl_capped (natural : ∀ x ∈ xs, x.IsNatural) (proper : b.IsProper) :
    (xs.foldl Bound.capped b).shown? = (b.shown?.toList ++ xs.filterMap Bound.whole?).min? := by
  induction xs generalizing b with
  | nil => cases hb : b.shown? <;> simp [hb]
  | cons x xs ih =>
    obtain ⟨n, hn, nonneg⟩ := natural x List.mem_cons_self
    obtain ⟨set, shown⟩ := proper.capped hn nonneg
    rw [List.foldl_cons, ih (fun y hy => natural y (List.mem_cons_of_mem _ hy)) (.inr set), shown,
      List.filterMap_cons_some hn]
    cases b.shown? <;> rfl

end Bound

theorem min?_perm {xs ys : List Int} (h : xs.Perm ys) : xs.min? = ys.min? := by
  ext n
  simp only [List.min?_eq_some_iff, h.mem_iff]

/-! ### Operations -/

namespace StreamOp

/-- The execution options an operation supplies. -/
def options : StreamOp → List (String × Value)
  | fluent op => op.options
  | assign .. => []

/-- The number of rows an operation skips. -/
def skip? : StreamOp → Option Bound
  | fluent (.skip v) => v.bound?
  | _ => none

/-- The number of rows an operation stops at. -/
def limit? : StreamOp → Option Bound
  | fluent (.limit v) => v.bound?
  | _ => none

def skips (ops : List StreamOp) : List Bound := ops.filterMap skip?

def limits (ops : List StreamOp) : List Bound := ops.filterMap limit?

variable {op : StreamOp} {s t : Stream} {m m' : Machine}

theorem apply_kind (h : exec (op.apply s) m = (.ok t, m')) :
    t.kind = s.kind ∧ t.options = override s.options op.options := by
  cases op with
  | fluent op =>
    have gives := Fluent.apply_gives h
    exact ⟨gives.kind, gives.options⟩
  | assign key v =>
    have gives : Fluent.distinct.Gives s t :=
      .of_unbounded (exec_guarded_eq_ok.mp h).2 ⟨rfl, rfl⟩ rfl rfl
    exact ⟨gives.kind, gives.options⟩

/-- An operation accepts whole numbers of rows only, and folds them into the bounds. -/
theorem apply_bounds (h : exec (op.apply s) m = (.ok t, m')) :
    ((∀ x ∈ op.skip?, x.IsNatural) ∧ ∀ x ∈ op.limit?, x.IsNatural) ∧
      op.skip?.toList.foldlM Bound.plus? s.firstResult = some t.firstResult ∧
      t.maxResults = op.limit?.toList.foldl Bound.capped s.maxResults := by
  have plain (hop : op.isBounding = false) (skip : op.skip? = none) (limit : op.limit? = none) :
      ((∀ x ∈ op.skip?, x.IsNatural) ∧ ∀ x ∈ op.limit?, x.IsNatural) ∧
        op.skip?.toList.foldlM Bound.plus? s.firstResult = some t.firstResult ∧
        t.maxResults = op.limit?.toList.foldl Bound.capped s.maxResults := by
    obtain ⟨first, max⟩ := apply_bounds_eq h hop
    rw [skip, limit, first, max]
    exact ⟨⟨nofun, nofun⟩, rfl, rfl⟩
  cases op with
  | assign => exact plain rfl rfl rfl
  | fluent op =>
    have gives := (Fluent.apply_gives h).bounds
    cases op with
    | limit v =>
      obtain ⟨first, x, hx, natural, max⟩ := gives
      simp only [skip?, limit?, hx, Option.mem_some, forall_eq']
      exact ⟨⟨nofun, natural⟩, by rw [first]; rfl, max⟩
    | skip v =>
      obtain ⟨max, x, hx, natural, first⟩ := gives
      simp only [skip?, limit?, hx, Option.mem_some, forall_eq']
      refine ⟨⟨natural, nofun⟩, ?_, max⟩
      rw [Option.toList_some, List.foldlM_cons]
      unfold Bound.plus?
      split at first
      · rename_i set
        rw [if_pos set, first]
        rfl
      · rename_i unset
        rw [if_neg unset, first]
        rfl
    | _ => exact plain rfl rfl rfl

end StreamOp

/-! ### Chains -/

namespace Stream

open StreamOp

variable {s t : Stream} {ops : List StreamOp}

theorem Chained.kind_eq (chain : s.Chained ops t) :
    t.kind = s.kind ∧ t.options = override s.options (ops.flatMap StreamOp.options) := by
  induction chain with
  | nil => exact ⟨rfl, rfl⟩
  | snoc _ applied ih =>
    obtain ⟨kind, options⟩ := StreamOp.apply_kind applied
    rw [kind, options, ih.1, ih.2, ← override_append, List.flatMap_append, List.flatMap_singleton]
    exact ⟨rfl, rfl⟩

theorem Chained.bounds_eq (chain : s.Chained ops t) :
    ((∀ x ∈ skips ops, x.IsNatural) ∧ ∀ x ∈ limits ops, x.IsNatural) ∧
      (skips ops).foldlM Bound.plus? s.firstResult = some t.firstResult ∧
      t.maxResults = (limits ops).foldl Bound.capped s.maxResults := by
  induction chain with
  | nil => exact ⟨⟨nofun, nofun⟩, rfl, rfl⟩
  | @snoc ops op t u m m' _ applied ih =>
    obtain ⟨⟨skipped, limited⟩, first, max⟩ := ih
    obtain ⟨⟨skips', limits'⟩, first', max'⟩ := StreamOp.apply_bounds applied
    have one {f : StreamOp → Option Bound} : [op].filterMap f = (f op).toList := by
      cases hf : f op <;> simp [hf]
    simp only [skips, limits, List.filterMap_append, one] at *
    refine ⟨⟨fun x hx => ?_, fun x hx => ?_⟩, ?_, ?_⟩
    · exact (List.mem_append.mp hx).elim (skipped x) fun h => skips' x (by simpa using h)
    · exact (List.mem_append.mp hx).elim (limited x) fun h => limits' x (by simpa using h)
    · rw [List.foldlM_append, first]
      exact first'
    · rw [List.foldl_append, ← max]
      exact max'

/-- The row bounds of a node in numbers: offsets add up, and the smallest limit counts. -/
theorem Chained.shown?_eq (chain : s.Chained ops t) (proper : s.IsProper) :
    (t.firstResult.shown? = if skips ops = [] then s.firstResult.shown?
      else some (s.firstResult.shown?.getD 0 + ((skips ops).filterMap Bound.whole?).sum)) ∧
    t.maxResults.shown? =
      (s.maxResults.shown?.toList ++ (limits ops).filterMap Bound.whole?).min? := by
  obtain ⟨⟨skipped, limited⟩, first, max⟩ := chain.bounds_eq
  exact ⟨Bound.foldlM_plus? skipped proper.first first,
    max ▸ Bound.foldl_capped limited proper.max⟩

/-- Chains with the same skips and limits in any order lead to the same row bounds. -/
theorem Chained.shown?_perm {u : Stream} {ops' : List StreamOp} (chain : s.Chained ops t)
    (other : s.Chained ops' u) (proper : s.IsProper) (skip : (skips ops').Perm (skips ops))
    (limit : (limits ops').Perm (limits ops)) :
    u.firstResult.shown? = t.firstResult.shown? ∧ u.maxResults.shown? = t.maxResults.shown? := by
  obtain ⟨first, max⟩ := chain.shown?_eq proper
  obtain ⟨first', max'⟩ := other.shown?_eq proper
  have none_iff : skips ops' = [] ↔ skips ops = [] :=
    ⟨fun h => List.nil_perm.mp (h ▸ skip), fun h => List.perm_nil.mp (h ▸ skip)⟩
  rw [first, first', max, max', (skip.filterMap _).sum_eq,
    min?_perm ((limit.filterMap Bound.whole?).append_left _)]
  simp only [none_iff, and_self]

/-! ### Streams as they are made -/

/-- A stream whose fields are of their types: row bounds are whole numbers, with -1 for none, and no
dictionary has a name twice. -/
structure WellTyped (s : Stream) : Prop where
  bounds : s.IsProper
  params : (s.params.map Prod.fst).Nodup
  options : (s.options.map Prod.fst).Nodup

theorem Chained.wellTyped (chain : s.Chained ops t) (typed : s.WellTyped) : t.WellTyped where
  bounds := chain.isProper typed.bounds
  params := chain.params_eq ▸ nodup_override typed.params _
  options := chain.kind_eq.2 ▸ nodup_override typed.options _

/-- The streams that a builder offers: over the rows of an entity, for any purpose, and from a root
of an enclosing query. -/
inductive Offered : Stream → Prop
  | entity {purpose session entity s m m'}
      (h : exec (ofEntity purpose session entity) m = (.ok s, m')) : Offered s
  | root {session root s m m'} (h : exec (ofRoot session root) m = (.ok s, m')) : Offered s

theorem exec_start {session : Value} {qt : QueryType} {c : Configurer} {m m' : Machine}
    (h : exec (start session qt c) m = (.ok s, m')) :
    s.firstResult = .unset ∧ s.maxResults = .unset ∧ s.params = [] ∧ s.options = [] := by
  obtain ⟨id, m₁, -, h⟩ := exec_bind_eq_ok.mp h
  obtain ⟨rfl, -⟩ := exec_pure_eq_ok.mp h
  exact ⟨rfl, rfl, rfl, rfl⟩

theorem Offered.wellTyped (h : s.Offered) : s.WellTyped := by
  obtain ⟨first, max, params, options⟩ :
      s.firstResult = .unset ∧ s.maxResults = .unset ∧ s.params = [] ∧ s.options = [] := by
    cases h with
    | entity h =>
      replace h := (exec_guarded_eq_ok.mp h).2
      obtain ⟨qt, _, -, h⟩ := exec_bind_eq_ok.mp h
      obtain ⟨id, _, -, h⟩ := exec_bind_eq_ok.mp h
      exact exec_start h
    | root h =>
      replace h := (exec_guarded_eq_ok.mp h).2
      split at h
      · obtain ⟨_, _, _, h⟩ := exec_bind_eq_ok.mp h
        simp at h
      · obtain ⟨qt, _, -, h⟩ := exec_bind_eq_ok.mp h
        obtain ⟨id, _, -, h⟩ := exec_bind_eq_ok.mp h
        exact exec_start h
  refine ⟨⟨.inl first, .inl max⟩, ?_, ?_⟩
  · rw [params]
    exact List.nodup_nil
  · rw [options]
    exact List.nodup_nil

/-! ### Queries ready to run -/

/-- A stream that was built has an executable query with its session, its row bounds, and new
dictionaries with its parameters and options. -/
theorem toQuery_carries {call : Call} {v : Value} {m m' : Machine}
    (h : exec (s.toQuery call) m = (.ok v, m')) :
    ∃ q x, v = .query q ∧ m'.query? q = some x ∧ x.session = s.session ∧
      x.firstResult = (if s.firstResult.isSet then s.firstResult else .unset) ∧
      x.maxResults = (if s.maxResults.isSet then s.maxResults else .unset) ∧
      m'.mapping x.params = override [] s.params ∧
      m'.mapping x.options = override [] s.options := by
  obtain ⟨qt, ht⟩ : ∃ qt, s.queryType = .queryType qt := by
    unfold toQuery at h
    split at h
    · exact ⟨_, ‹_›⟩
    · simp at h
  obtain ⟨u, m₁, q, x, built, -⟩ := exec_toQuery ht h
  obtain ⟨hs, hu⟩ : s.session.isNull = false ∧ u.isNull = false := by
    unfold toQuery at h
    simp only [ht] at h
    rw [exec_bind_of_ok built] at h
    obtain ⟨q, m₂, hq, -⟩ := exec_bind_eq_ok.mp h
    obtain ⟨session, hq⟩ := exec_guarded_eq_ok.mp hq
    exact ⟨by simpa using session, by simpa using (exec_guarded_eq_ok.mp hq).1⟩
  rw [exec_toQuery_of_context ht built hs hu] at h
  obtain ⟨_, m₂, logged, h⟩ := exec_bind_eq_ok.mp h
  obtain ⟨rfl, rfl⟩ := exec_pure_eq_ok.mp h
  have held := s.query?_wrapped qt.purpose u m₁
  obtain ⟨log, rfl⟩ : ∃ log, m₂ = { s.wrapped qt.purpose u m₁ with log } := by
    cases hst : (s.executable qt.purpose u m₁).statement (s.wrapped qt.purpose u m₁) _ with
    | error e =>
      rw [exec_logCompiled_of_error held hst] at logged
      split at logged
      · cases logged
      · exact ⟨_, (Prod.mk.inj logged).2.symm⟩
    | ok st =>
      have shown := (exec_logCompiled held hst).2 (by rw [logged])
      obtain ⟨log, logs⟩ := (exec_logCompiled held hst).1 shown
      exact ⟨log, (Prod.mk.inj (logged.symm.trans logs)).2⟩
  refine ⟨_, _, rfl, held, rfl, rfl, rfl, ?_, ?_⟩
  · simp [Machine.mapping, wrapped, executable]
  · simp [Machine.mapping, wrapped, executable]

theorem orUnset_of_isProper {b : Bound} (h : b.IsProper) :
    (if b.isSet then b else .unset) = b := by
  rcases h with rfl | natural
  · exact ite_self _
  · rw [if_pos natural.isSet]

theorem WellTyped.toQuery_carries (typed : s.WellTyped) {call : Call} {v : Value} {m m' : Machine}
    (h : exec (s.toQuery call) m = (.ok v, m')) :
    ∃ q x, v = .query q ∧ m'.query? q = some x ∧ x.session = s.session ∧
      x.firstResult = s.firstResult ∧ x.maxResults = s.maxResults ∧
      m'.mapping x.params = s.params ∧ m'.mapping x.options = s.options := by
  have same {xs : List (String × Value)} (names : (xs.map Prod.fst).Nodup) : override [] xs = xs :=
    override_of_nodup names
  have carried := Stream.toQuery_carries h
  rwa [orUnset_of_isProper typed.bounds.first, orUnset_of_isProper typed.bounds.max,
    same typed.params, same typed.options] at carried

end Stream

open StreamOp in
/-- The fields of a node are folds of the operations that led to it, each of its own: the skips add
up to the offset, the smallest of the limits counts, parameters and options override from left to
right, and class, session and query type stay. So the order of skips and limits does not matter. Row
bounds of what a builder offers are never anything but whole numbers, with -1 for none, and a query
ready to run gets all of them as they are. -/
theorem node_fields_fold {s t : Stream} {ops : List StreamOp} (chain : s.Chained ops t) :
    t.kind = s.kind ∧ t.session = s.session ∧ t.queryType = s.queryType ∧
    t.params = override s.params (ops.flatMap StreamOp.params) ∧
    t.options = override s.options (ops.flatMap StreamOp.options) ∧
    (skips ops).foldlM Bound.plus? s.firstResult = some t.firstResult ∧
    t.maxResults = (limits ops).foldl Bound.capped s.maxResults ∧
    (s.Offered → s.WellTyped) ∧
    (s.WellTyped →
      t.WellTyped ∧
      (t.firstResult.shown? = if skips ops = [] then s.firstResult.shown?
        else some (s.firstResult.shown?.getD 0 + ((skips ops).filterMap Bound.whole?).sum)) ∧
      t.maxResults.shown? =
        (s.maxResults.shown?.toList ++ (limits ops).filterMap Bound.whole?).min? ∧
      (∀ ops' u, s.Chained ops' u → (skips ops').Perm (skips ops) →
        (limits ops').Perm (limits ops) →
        u.firstResult.shown? = t.firstResult.shown? ∧ u.maxResults.shown? = t.maxResults.shown?) ∧
      ∀ call v m m', exec (t.toQuery call) m = (.ok v, m') →
        ∃ q x, v = .query q ∧ m'.query? q = some x ∧ x.session = t.session ∧
          x.firstResult = t.firstResult ∧ x.maxResults = t.maxResults ∧
          m'.mapping x.params = t.params ∧ m'.mapping x.options = t.options) := by
  obtain ⟨kind, options⟩ := chain.kind_eq
  obtain ⟨-, first, max⟩ := chain.bounds_eq
  refine ⟨kind, chain.continues.session, chain.continues.queryType, chain.params_eq, options, first,
    max, Stream.Offered.wellTyped, fun typed => ?_⟩
  have still := chain.wellTyped typed
  obtain ⟨offset, limit⟩ := chain.shown?_eq typed.bounds
  exact ⟨still, offset, limit,
    fun ops' u other skip limit => chain.shown?_perm other typed.bounds skip limit,
    fun call v m m' built => still.toQuery_carries built⟩

theorem Stream.chained_of_foldlM {s t : Stream} {ops : List StreamOp} {m m' : Machine}
    (h : exec (ops.foldlM StreamOp.apply s) m = (.ok t, m')) : s.Chained ops t := by
  induction ops using List.reverseRecOn generalizing t m' with
  | nil =>
    obtain ⟨rfl, -⟩ := exec_pure_eq_ok.mp h
    exact .nil
  | append_singleton ops op ih =>
    rw [List.foldlM_append] at h
    obtain ⟨u, m₁, earlier, h⟩ := exec_bind_eq_ok.mp h
    rw [List.foldlM_cons] at h
    obtain ⟨v, m₂, last, h⟩ := exec_bind_eq_ok.mp h
    obtain ⟨rfl, -⟩ := exec_pure_eq_ok.mp h
    exact (ih earlier).snoc last

/-- A page of a page of the products, with a parameter in between. -/
theorem node_fields_fold_paged :
    let ops : List StreamOp := [.fluent (.skip (.int 0 2)), .fluent (.limit (.int 0 9)),
      .fluent (.withParams [("least", .int 0 4)]), .fluent (.limit (.int 0 5)),
      .fluent (.skip (.int 0 3)), .fluent (.withParams [("least", .int 0 7)])]
    ∃ s t : Stream, s.Offered ∧ s.Chained ops t ∧ t.firstResult.shown? = some 5 ∧
      t.maxResults.shown? = some 5 ∧ t.params = [("least", .int 0 7)] := by
  intro ops
  let product : Value := .mapped ⟨.product, none⟩
  let s : Stream := ⟨2, .of .search, .bool true, .queryType ⟨0, .search, product⟩,
    .configurer ⟨1, .root product, []⟩, .unset, .unset, [], []⟩
  let m : Machine := Machine.initial ⟨false, false, false⟩
  have offered : s.Offered :=
    .entity (show exec (Stream.ofEntity .search (.bool true) product) m =
      (.ok s, { m with next := 3 }) from rfl)
  have accepted : (exec (ops.foldlM StreamOp.apply s) m).1.toBool = true := by decide +kernel
  rcases h : exec (ops.foldlM StreamOp.apply s) m with ⟨_ | t, m'⟩
  · rw [h] at accepted
    cases accepted
  have chain := Stream.chained_of_foldlM h
  obtain ⟨-, -, -, params, -, -, -, typed, rest⟩ := node_fields_fold chain
  obtain ⟨-, offset, limit, -⟩ := rest (typed offered)
  have blank : Bound.unset.shown? = none := Bound.shown?_unset
  refine ⟨s, t, offered, chain, ?_, ?_, params⟩
  · rw [offset, show s.firstResult = .unset from rfl, blank]
    rfl
  · rw [limit, show s.maxResults = .unset from rfl, blank]
    rfl

end FluentQuery
