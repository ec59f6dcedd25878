import FluentQuery.Proofs.Arranging
import FluentQuery.Proofs.Bulk
import FluentQuery.Proofs.Nodes

/-! Where the row bounds of a stream go. An executable query takes them over: a search shows them in
its statement, a bulk query refuses to run. A subquery looks at the steps of the configuration only:
it refuses a bound that an operation set, and knows nothing of one the stream was made with. -/

namespace FluentQuery

open Sql

/-- The number of rows a bound shows in a statement, if it is set. -/
def Bound.shown? (b : Bound) : Option Int := if b.isSet then b.whole? else none

theorem Bound.Shows.shown {b : Bound} {r : Option RowBound} (whole : b.whole?.isSome)
    (h : b.Shows r) : r.map (·.value) = b.shown? := by
  obtain ⟨n, hn⟩ := Option.isSome_iff_exists.mp whole
  unfold Shows at h
  unfold shown?
  split at h
  · rename_i set
    obtain ⟨id, k, hk, rfl⟩ := h
    rw [toInt_of_whole? hn] at hk
    rw [if_pos set, hn, Except.ok.inj hk]
    rfl
  · rename_i unset
    rw [if_neg unset, h]
    rfl

theorem Bound.shows_unset {r : Option RowBound} : Bound.unset.Shows r ↔ r = none := by
  unfold Shows
  rw [if_neg (by simp [Stream.isSet_unset])]

/-! ### Executable queries -/

namespace Executable

variable {q : Executable} {m : Machine} {next : Nat}

/-- The same query without row bounds. -/
def unbounded (q : Executable) : Executable :=
  { q with firstResult := .unset, maxResults := .unset }

theorem withBounds_unbounded (st : Statement) : q.unbounded.withBounds next st = .ok st := by
  unfold withBounds unbounded
  simp [Stream.isSet_unset]

/-- The statement of a search is the one without row bounds, and then the bounds are applied. -/
theorem statement_eq_bind (hk : q.kind = .typed) :
    q.statement m next = q.unbounded.statement m next >>= q.withBounds next := by
  have params (st : Statement) : q.unbounded.withParams m st = q.withParams m st := rfl
  unfold statement statementTo
  simp only [show q.unbounded.kind = .typed from hk, hk, show q.unbounded.query = q.query from rfl,
    params, withBounds_unbounded, Bool.false_eq_true, if_false, if_true]
  -- the bounds come last, whatever stands underneath
  split
  all_goals
    simp only [bind_assoc]
    rfl

/-- Whole numbers can bound any SELECT. -/
theorem withBounds_select (next : Nat) (base : Select) (hf : q.firstResult.whole?.isSome)
    (hm : q.maxResults.whole?.isSome) :
    ∃ s, q.withBounds next (.select base) = .ok (.select s) := by
  have bound (id : Nat) {b : Bound} (hb : b.whole?.isSome) (old : Option RowBound) :
      ∃ r, (if b.isSet then b.toInt.map fun n => some ⟨id, n⟩ else Except.ok old) =
        (.ok r : Except Error (Option RowBound)) := by
    obtain ⟨n, hn⟩ := Option.isSome_iff_exists.mp hb
    rw [Bound.toInt_of_whole? hn]
    split
    · exact ⟨_, rfl⟩
    · exact ⟨_, rfl⟩
  obtain ⟨offset, ho⟩ := bound next hf base.offset
  obtain ⟨limit, hl⟩ := bound (next + 1) hm base.limit
  unfold withBounds
  split
  · exact ⟨_, rfl⟩
  · refine ⟨{ base with offset, limit }, ?_⟩
    simp only [ho, hl]
    rfl

/-- The statement of a search over a query context shows exactly the row bounds that are set. It is
the one without row bounds otherwise, and can be built if that can. -/
theorem statement_shows (m : Machine) (next : Nat) {c : ContextId} (hk : q.kind = .typed) (hq : q.query = .context c)
    (hf : q.firstResult.whole?.isSome) (hm : q.maxResults.whole?.isSome) :
    (∀ e, q.unbounded.statement m next = .error e → q.statement m next = .error e) ∧
      ∀ base, q.unbounded.statement m next = .ok (.select base) →
        ∃ offset limit, q.statement m next = .ok (.select { base with offset, limit }) ∧
          offset.map (·.value) = q.firstResult.shown? ∧
          limit.map (·.value) = q.maxResults.shown? := by
  rw [statement_eq_bind hk]
  refine ⟨fun e he => by rw [he]; rfl, fun base hbase => ?_⟩
  rw [hbase]
  have bare : base.offset = none ∧ base.limit = none := by
    obtain ⟨_, _, _, offset, limit, _, _, rfl, shown⟩ :=
      statement_eq_ok (q := q.unbounded) hk hq hbase
    exact shown.imp Bound.shows_unset.mp Bound.shows_unset.mp
  obtain ⟨s, hs⟩ := withBounds_select next base hf hm
  obtain ⟨_, offset, limit, same, rfl, offsetShows, limitShows⟩ := withBounds_eq_ok hs
  obtain rfl := Statement.select.inj same
  exact ⟨offset, limit, hs, (offsetShows bare.1).shown hf, (limitShows bare.2).shown hm⟩

end Executable

/-! ### Streams -/

namespace Stream

/-- The same stream without row bounds. -/
def unbounded (s : Stream) : Stream := { s with firstResult := .unset, maxResults := .unset }

theorem run_unbounded (s : Stream) {T : Terminal} (hT : T.nests = true) (call : Call) :
    T.run call s.unbounded = T.run call s := by
  cases T with
  | subquery | existence => rfl
  | criteria | query => cases hT

theorem whole?_orUnset {b : Bound} (h : b.whole?.isSome) :
    (if b.isSet then b else .unset).whole?.isSome := by
  split
  · exact h
  · rfl

theorem shown?_orUnset (b : Bound) : (if b.isSet then b else .unset).shown? = b.shown? := by
  unfold Bound.shown?
  by_cases h : b.isSet <;> simp [h, isSet_unset]

end Stream

/-- Row bounds that are whole numbers are never lost in a query of its own, however the stream came
by them. The statement of a search shows exactly those, and is otherwise the one without them; a
bulk query refuses to run before anything is sent. A subquery is never built from a stream with a
bound that an operation set, wherever in the chain it did. But if the stream the chain began with
brought the bounds, a subquery is what it would be without them. -/
theorem row_bounds_outermost_only {s t : Stream} {ops : List StreamOp} (chain : s.Chained ops t)
    (bounded : t.isBounded) (hf : t.firstResult.whole?.isSome) (hm : t.maxResults.whole?.isSome)
    (depth : Nat) (m : Machine) :
    let call := callAny (eval depth)
    (∀ qt v m', t.queryType = .queryType qt → exec (t.toQuery call) m = (.ok v, m') →
      ∃ q x, v = .query q ∧ m'.query? q = some x ∧
        match qt.purpose with
        | .search => ∀ n next,
          (∀ e, x.unbounded.statement n next = .error e → x.statement n next = .error e) ∧
          ∀ base, x.unbounded.statement n next = .ok (.select base) →
            ∃ offset limit, x.statement n next = .ok (.select { base with offset, limit }) ∧
              offset.map (·.value) = t.firstResult.shown? ∧
              limit.map (·.value) = t.maxResults.shown?
        | .delete | .update => ∀ n, n.query? q = some x →
          exec q.execute n = (.error .boundedBulk, n)) ∧
    ∀ T : Terminal, T.nests = true → ∀ v m', exec (T.run call t) m = (.ok v, m') →
      (∀ op ∈ ops, op.isBounding = false) ∧ s.isBounded ∧
        exec (T.run call t.unbounded) m = (.ok v, m') := by
  intro call
  refine ⟨fun qt v m' ht built => ?_, fun T hT v m' built => ?_⟩
  · obtain ⟨u, m₁, q, x, hu, rfl, hx, hk, rfl, first, max, -⟩ := Stream.exec_toQuery ht built
    refine ⟨q, x, rfl, hx, ?_⟩
    have refused (hk : x.kind = .bulk) (n : Machine) (hn : n.query? q = some x) :
        exec q.execute n = (.error .boundedBulk, n) := by
      have set : (x.firstResult.isSet || x.maxResults.isSet) = true := by
        rw [first, max]
        unfold Stream.isBounded at bounded
        cases hf : t.firstResult.isSet <;> cases hm : t.maxResults.isSet <;> simp_all
      rw [QueryId.exec_execute hn hk, if_pos set]
    cases hp : qt.purpose with
    | search =>
      rw [hp] at hk
      obtain ⟨c, hc⟩ : ∃ c, x.query = .context c := by
        obtain ⟨hv, -⟩ := Stream.exec_toContext ht hp hu
        exact ⟨_, hv⟩
      intro n next
      have shows := Executable.statement_shows n next hk hc
        (first ▸ Stream.whole?_orUnset hf) (max ▸ Stream.whole?_orUnset hm)
      rwa [first, max, Stream.shown?_orUnset, Stream.shown?_orUnset] at shows
    | delete | update => exact refused (hk.trans (by rw [hp]; rfl))
  · have plain : ∀ op ∈ ops, op.isBounding = false := by
      intro op mem
      cases hop : op.isBounding with
      | false => rfl
      | true =>
        obtain ⟨b, step⟩ := (StreamOp.isBounding_iff s.queryType).mp hop
        exact absurd built (chain.continues.ne_ok
          ⟨.bounded b, List.mem_filterMap.mpr ⟨op, mem, step⟩, rfl⟩ hT depth m v m')
    refine ⟨plain, ?_, by rw [t.run_unbounded hT]; exact built⟩
    rcases chain.isBounding_of_isBounded bounded with began | ⟨op, mem, hop⟩
    · exact began
    · cases (plain op mem).symm.trans hop

/-- A stream made with an offset of five, where a subquery of another query is wanted: the subquery
is built, and is the one without the offset. -/
theorem row_bounds_outermost_only_dropped :
    let product : Value := .mapped ⟨.product, none⟩
    let s : Stream := ⟨5, .of .search, .bool true, .queryType ⟨3, .search, product⟩,
      .configurer ⟨4, .root product, []⟩, .number 5, .unset, [], []⟩
    let m : Machine := { Machine.start ⟨false, false, false⟩ with
      next := 10, contexts := [.query], stack := [⟨6, .criteriaBuilder 6, .context ⟨0⟩⟩] }
    s.isBounded = true ∧ s.firstResult.shown? = some 5 ∧
      ∃ v m', exec (Terminal.existence.run (callAny (eval 1)) s) m = (.ok v, m') ∧
        exec (Terminal.existence.run (callAny (eval 1)) s.unbounded) m = (.ok v, m') := by
  intro product s m
  have bounded : s.isBounded = true := by decide +kernel
  have returned : (exec (Terminal.existence.run (callAny (eval 1)) s) m).1.toBool = true := by
    decide +kernel
  rcases built : exec (Terminal.existence.run (callAny (eval 1)) s) m with ⟨_ | v, m'⟩
  · rw [built] at returned
    cases returned
  obtain ⟨-, -, same⟩ := (row_bounds_outermost_only .nil bounded rfl rfl 1 m).2 .existence rfl v m'
    built
  exact ⟨bounded, by decide +kernel, v, m', rfl, same⟩

end FluentQuery
