import FluentQuery.Proofs.Order

/-! What a chain of operations leaves at a node beside its configuration: the row bounds, the
parameters and the execution options. -/

namespace FluentQuery

open Sql

/-! ### Row bounds -/

/-- A row bound that is a whole number and not negative. -/
def Bound.IsNatural (b : Bound) : Prop := ∃ n, b.whole? = some n ∧ 0 ≤ n

namespace Bound

variable {b c : Bound}

theorem isSet_of_whole? {n : Int} (h : b.whole? = some n) : b.isSet = decide (n ≠ -1) := by
  have position : b.position? = some (.ofInt n) := by
    cases b <;> simp_all [whole?, position?]
  have units : (Binary64.unitsPerOne : Int) ≠ 0 := by decide +kernel
  have apart : n * (Binary64.unitsPerOne : Int) = -1 * Binary64.unitsPerOne ↔ n = -1 :=
    Int.mul_eq_mul_right_iff units
  unfold isSet
  rw [position, unset, position?, Bool.eq_iff_iff]
  simp only [bne_iff_ne, ne_eq, Option.some.injEq, Position.ofInt, Position.units.injEq,
    decide_eq_true_eq, apart]

theorem IsNatural.isSet (h : b.IsNatural) : b.isSet = true := by
  obtain ⟨n, hn, pos⟩ := h
  rw [isSet_of_whole? hn]
  simp only [decide_eq_true_eq]
  omega

theorem IsNatural.add {sum : Bound} (hb : b.IsNatural) (hc : c.IsNatural)
    (h : b.add? c = some sum) : sum.IsNatural := by
  obtain ⟨n, hn, _⟩ := hb
  obtain ⟨k, hk, _⟩ := hc
  rw [add?, hn, hk] at h
  obtain rfl := Option.some.inj h
  exact ⟨n + k, rfl, by omega⟩

theorem toInt_of_whole? {n : Int} (h : b.whole? = some n) : b.toInt = .ok n := by
  cases b <;> simp_all [whole?, toInt]

end Bound

theorem Stream.exec_requireNatural {b : Bounding} {v : Value} {x : Bound} {m m' : Machine}
    (h : exec (requireNatural b v) m = (.ok x, m')) : v.bound? = some x ∧ x.IsNatural := by
  unfold requireNatural at h
  split at h
  · simp at h
  · rename_i y hy
    split at h
    · rename_i n hn
      obtain ⟨pos, h⟩ := exec_else_eq_ok.mp h
      obtain ⟨rfl, -⟩ := exec_pure_eq_ok.mp h
      exact ⟨hy, n, hn, by simpa using pos⟩
    · simp at h

/-! ### Operations -/

namespace Fluent

/-- Whether an operation sets a row bound. -/
def isBounding : Fluent → Bool
  | limit _ | skip _ => true
  | _ => false

/-- The parameters an operation supplies. -/
def params : Fluent → List (String × Value)
  | withParams params => params
  | _ => []

/-- The execution options an operation supplies. -/
def options : Fluent → List (String × Value)
  | withOptions options => options
  | _ => []

/-- The row bounds after an operation on a stream. -/
def Bounds (s : Stream) (first max : Bound) : Fluent → Prop
  | limit v => first = s.firstResult ∧ ∃ x, v.bound? = some x ∧ x.IsNatural ∧
      max = if s.maxResults.isSet && s.maxResults.lt x then s.maxResults else x
  | skip v => max = s.maxResults ∧ ∃ x, v.bound? = some x ∧ x.IsNatural ∧
      if s.firstResult.isSet then s.firstResult.add? x = some first else first = x
  | _ => first = s.firstResult ∧ max = s.maxResults

/-- `t` is the node that an operation gives on `s`: it differs from `s` in its number, its
configuration, and in what the operation sets. -/
structure Gives (op : Fluent) (s t : Stream) : Prop where
  kind : t.kind = s.kind
  bounds : op.Bounds s t.firstResult t.maxResults
  params : t.params = override s.params op.params
  options : t.options = override s.options op.options

variable {op : Fluent} {s t : Stream} {step : Step} {m m' : Machine}

/-- An operation that only adds a step leaves bounds, parameters and options as they are. -/
theorem Gives.of_extend (h : exec (s.extend step) m = (.ok t, m'))
    (bounds : op.Bounds s s.firstResult s.maxResults) (params : op.params = [])
    (options : op.options = []) : op.Gives s t := by
  obtain ⟨v, m₁, _, h⟩ := exec_bind_eq_ok.mp h
  obtain ⟨id, m₂, _, h⟩ := exec_bind_eq_ok.mp h
  obtain ⟨rfl, -⟩ := exec_pure_eq_ok.mp h
  exact ⟨rfl, bounds, by rw [params, override_nil], by rw [options, override_nil]⟩

/-- The same after a check for row bounds. -/
theorem Gives.of_unbounded {operation : String}
    (h : exec (do s.requireUnbounded operation; s.extend step) m = (.ok t, m'))
    (bounds : op.Bounds s s.firstResult s.maxResults) (params : op.params = [])
    (options : op.options = []) : op.Gives s t := by
  obtain ⟨_, m₁, _, h⟩ := exec_bind_eq_ok.mp h
  exact .of_extend h bounds params options

/-- An operation that is accepted gives its node. -/
theorem apply_gives (h : exec (op.apply s) m = (.ok t, m')) : op.Gives s t := by
  cases op with
  | filter predicate =>
    obtain ⟨_, _, _, h⟩ := exec_bind_eq_ok.mp h
    exact .of_unbounded h ⟨rfl, rfl⟩ rfl rfl
  | peek f => exact .of_extend (exec_guarded_eq_ok.mp h).2 ⟨rfl, rfl⟩ rfl rfl
  | bind r f =>
    unfold apply Stream.bind at h
    replace h := (exec_guarded_eq_ok.mp h).2
    dsimp only at h
    split at h
    all_goals
      obtain ⟨_, _, _, h⟩ := exec_bind_eq_ok.mp h
      obtain ⟨_, _, _, h⟩ := exec_bind_eq_ok.mp h
      exact .of_extend h ⟨rfl, rfl⟩ rfl rfl
  | distinct => exact .of_unbounded h ⟨rfl, rfl⟩ rfl rfl
  | orderBy target ascending =>
    obtain ⟨_, _, _, h⟩ := exec_bind_eq_ok.mp h
    exact .of_unbounded h ⟨rfl, rfl⟩ rfl rfl
  | orderByAttributes orders =>
    obtain ⟨_, _, _, h⟩ := exec_bind_eq_ok.mp (exec_guarded_eq_ok.mp h).2
    exact .of_unbounded h ⟨rfl, rfl⟩ rfl rfl
  | orderByListed f => exact .of_unbounded (exec_guarded_eq_ok.mp h).2 ⟨rfl, rfl⟩ rfl rfl
  | groupBy target =>
    obtain ⟨_, _, _, h⟩ := exec_bind_eq_ok.mp h
    exact .of_unbounded h ⟨rfl, rfl⟩ rfl rfl
  | groupByListed f => exact .of_unbounded (exec_guarded_eq_ok.mp h).2 ⟨rfl, rfl⟩ rfl rfl
  | having predicate =>
    obtain ⟨_, _, _, h⟩ := exec_bind_eq_ok.mp h
    exact .of_unbounded h ⟨rfl, rfl⟩ rfl rfl
  | addRoot r entity =>
    unfold apply Stream.addRoot at h
    replace h := (exec_guarded_eq_ok.mp (exec_guarded_eq_ok.mp h).2).2
    obtain ⟨_, _, _, h⟩ := exec_bind_eq_ok.mp h
    exact .of_unbounded h ⟨rfl, rfl⟩ rfl rfl
  | join key outer => exact .of_unbounded (exec_guarded_eq_ok.mp h).2 ⟨rfl, rfl⟩ rfl rfl
  | map target =>
    obtain ⟨_, _, _, h⟩ := exec_bind_eq_ok.mp h
    exact .of_extend h ⟨rfl, rfl⟩ rfl rfl
  | count => exact .of_extend h ⟨rfl, rfl⟩ rfl rfl
  | limit n =>
    obtain ⟨x, _, hx, h⟩ := exec_bind_eq_ok.mp h
    obtain ⟨u, _, hu, h⟩ := exec_bind_eq_ok.mp h
    obtain ⟨rfl, -⟩ := exec_pure_eq_ok.mp h
    obtain ⟨hv, natural⟩ := Stream.exec_requireNatural hx
    obtain ⟨kind, ⟨first, -⟩, params, options⟩ : distinct.Gives s u :=
      .of_extend hu ⟨rfl, rfl⟩ rfl rfl
    exact ⟨kind, ⟨first, x, hv, natural, rfl⟩, params, options⟩
  | skip n =>
    obtain ⟨x, _, hx, h⟩ := exec_bind_eq_ok.mp h
    obtain ⟨hv, natural⟩ := Stream.exec_requireNatural hx
    have rest {y : Bound} {m₁ : Machine}
        (hy : if s.firstResult.isSet then s.firstResult.add? x = some y else y = x)
        (h : exec (do return { ← s.extend (.bounded .skip) with firstResult := y }) m₁ =
          (.ok t, m')) : (skip n).Gives s t := by
      obtain ⟨u, _, hu, h⟩ := exec_bind_eq_ok.mp h
      obtain ⟨rfl, -⟩ := exec_pure_eq_ok.mp h
      obtain ⟨kind, ⟨-, max⟩, params, options⟩ : distinct.Gives s u :=
        .of_extend hu ⟨rfl, rfl⟩ rfl rfl
      exact ⟨kind, ⟨max, x, hv, natural, hy⟩, params, options⟩
    dsimp only at h
    split at h
    · rename_i set
      obtain ⟨y, _, hy, h⟩ := exec_bind_eq_ok.mp h
      refine rest ?_ h
      rw [if_pos set]
      cases hsum : s.firstResult.add? x with
      | none => simp [hsum, orExternal] at hy
      | some z => simp_all [orExternal]
    · rename_i unset
      obtain ⟨y, _, hy, h⟩ := exec_bind_eq_ok.mp h
      obtain ⟨rfl, -⟩ := exec_pure_eq_ok.mp hy
      exact rest (by rw [if_neg unset]) h
  | withParams given =>
    obtain ⟨_, _, _, h⟩ := exec_bind_eq_ok.mp h
    obtain ⟨_, _, _, h⟩ := exec_bind_eq_ok.mp h
    obtain ⟨rfl, -⟩ := exec_pure_eq_ok.mp h
    exact ⟨rfl, ⟨rfl, rfl⟩, rfl, rfl⟩
  | withOptions given =>
    obtain ⟨_, _, _, h⟩ := exec_bind_eq_ok.mp h
    obtain ⟨rfl, -⟩ := exec_pure_eq_ok.mp h
    exact ⟨rfl, ⟨rfl, rfl⟩, rfl, rfl⟩

theorem Gives.bounds_eq (h : op.Gives s t) (plain : op.isBounding = false) :
    t.firstResult = s.firstResult ∧ t.maxResults = s.maxResults := by
  cases op with
  | limit | skip => cases plain
  | _ => exact h.bounds

end Fluent

namespace StreamOp

def isBounding : StreamOp → Bool
  | fluent op => op.isBounding
  | assign .. => false

/-- The parameters an operation supplies. -/
def params : StreamOp → List (String × Value)
  | fluent op => op.params
  | assign .. => []

variable {op : StreamOp} {s t : Stream} {m m' : Machine}

theorem isBounding_iff (queryType : Value) :
    op.isBounding ↔ ∃ b, op.step? queryType = some (.bounded b) := by
  cases op with
  | fluent op => cases op <;> simp [isBounding, Fluent.isBounding, step?, Fluent.step?]
  | assign => simp [isBounding, step?]

theorem apply_bounds_eq (h : exec (op.apply s) m = (.ok t, m')) (plain : op.isBounding = false) :
    t.firstResult = s.firstResult ∧ t.maxResults = s.maxResults := by
  cases op with
  | fluent op => exact (Fluent.apply_gives h).bounds_eq plain
  | assign key v =>
    have gives : Fluent.distinct.Gives s t :=
      .of_unbounded (exec_guarded_eq_ok.mp h).2 ⟨rfl, rfl⟩ rfl rfl
    exact gives.bounds

theorem apply_params (h : exec (op.apply s) m = (.ok t, m')) :
    t.params = override s.params op.params := by
  cases op with
  | fluent op => exact (Fluent.apply_gives h).params
  | assign key v =>
    have gives : Fluent.distinct.Gives s t :=
      .of_unbounded (exec_guarded_eq_ok.mp h).2 ⟨rfl, rfl⟩ rfl rfl
    exact gives.params

end StreamOp

/-! ### Chains -/

namespace Stream

variable {s t : Stream} {ops : List StreamOp}

/-- Whether a row bound was set. -/
def isBounded (s : Stream) : Bool := s.firstResult.isSet || s.maxResults.isSet

/-- The row bounds of a node come from where its chain began, or from an operation. -/
theorem Chained.isBounding_of_isBounded (chain : s.Chained ops t) (ht : t.isBounded) :
    s.isBounded ∨ ∃ op ∈ ops, op.isBounding := by
  induction chain with
  | nil => exact .inl ht
  | @snoc ops op t u m m' _ applied ih =>
    cases hop : op.isBounding with
    | true => exact .inr ⟨op, by simp, hop⟩
    | false =>
      obtain ⟨first, max⟩ := StreamOp.apply_bounds_eq applied hop
      unfold isBounded at ht ih
      rw [first, max] at ht
      rcases ih ht with began | ⟨x, mem, hx⟩
      · exact .inl began
      · exact .inr ⟨x, List.mem_append_left _ mem, hx⟩

/-- The parameters of a node are those of all its operations, where later ones override. -/
theorem Chained.params_eq (chain : s.Chained ops t) :
    t.params = override s.params (ops.flatMap StreamOp.params) := by
  induction chain with
  | nil => rfl
  | snoc _ applied ih =>
    rw [StreamOp.apply_params applied, ih, ← override_append, List.flatMap_append,
      List.flatMap_singleton]

end Stream

end FluentQuery
