import FluentQuery.Proofs.Spellings.Numbers

/-! Keys to sort or group by, given as they are or as a function that lists them. The list takes a
number of its own; but for that, the step does the same. -/

namespace FluentQuery

open Sql

/-- Of two runs, the second did what the first did and took one number more, unless both failed. -/
inductive Skips : Except Error Value × Machine → Except Error Value × Machine → Prop
  | ok (v : Value) (n : Machine) : Skips (.ok v, n) (.ok v, n.skipped)
  | error (e : Error) (n : Machine) : Skips (.error e, n) (.error e, n)

/-! ### Lists of one key -/

/-- The steps that take a key or a list of keys. -/
inductive KeyListing where
  | sort (ascending : Bool)
  | group

namespace KeyListing

/-- The operation that is given a target for its key. -/
def direct (v : Value) : KeyListing → StreamOp
  | sort ascending => .fluent (.orderBy v (.bool ascending))
  | group => .fluent (.groupBy v)

/-- The operation that is given a function for its keys. -/
def listed (g : Value) : KeyListing → StreamOp
  | sort _ => .fluent (.orderByListed g)
  | group => .fluent (.groupByListed g)

def directStep (v : Value) : KeyListing → Step
  | sort ascending => .sort (.keys [(.selected v, .bool ascending)])
  | group => .group (.key (.selected v))

def listedStep (g : Value) : KeyListing → Step
  | sort _ => .sort (.listed g)
  | group => .group (.listed g)

def arranging : KeyListing → Arranging
  | sort _ => .sort
  | group => .group

/-- What a list holds for the target: what the target gives, sorted if it is to be sorted by. -/
def item (call : Call) (v x : Value) : KeyListing → Run Value
  | sort ascending => do
    Expression.sorted (if ascending then .asc else .desc) (← (Projection.selected v).read call x)
  | group => (Projection.selected v).read call x

def tell (items : List Value) : KeyListing → Context → Except Error Context
  | sort _ => (·.orderBy items)
  | group => (·.groupBy items)

/-- Of the selection `x`, the function makes the list of what the target gives: it is written as
`s -> [v(s)]`, or with the one item ascending or descending. -/
def Gathers (call : Call) (g v x : Value) (n : Machine) (l : KeyListing) : Prop :=
  exec (call g [x]) n = exec (do newList [← l.item call v x]) n

section Steps

variable {call : Call} {builder g v x : Value} {c : ContextId} {n : Machine} {y : Context}
  {l : KeyListing}

theorem direct_step? (hv : v.isSelector) (queryType : Value) :
    (l.direct v).step? queryType = some (l.directStep v) := by
  cases l <;> simp [direct, directStep, StreamOp.step?, Fluent.step?, Value.isSelector_expressed hv]

theorem listed_step? (g queryType : Value) :
    (l.listed g).step? queryType = some (l.listedStep g) := by
  cases l <;> rfl

theorem direct_isStructural (l : KeyListing) (v : Value) : (l.direct v).IsStructural := by
  cases l <;> exact ⟨rfl, rfl, rfl, rfl⟩

theorem listed_isStructural (l : KeyListing) (g : Value) : (l.listed g).IsStructural := by
  cases l <;> exact ⟨rfl, rfl, rfl, rfl⟩

theorem exec_apply_direct (hx : n.context? c = some y) (hy : y.isQuery)
    (built : builder.requireBuilder = pure ()) :
    exec ((l.directStep v).apply call builder (.context c) x) n = exec (do
      let w ← l.item call v x
      c.update (l.tell [w])
      return x) n := by
  cases l with
  | sort ascending =>
    have truth : (Value.bool ascending).truth = pure ascending := rfl
    refine (exec_bind_of_ok (Place.exec_requireOutermost_of_isQuery hx hy .sort) _).trans ?_
    simp only [Ordering.clauses, Ordering.clauses.ordered, built, truth, item, tell, pure_bind,
      bind_assoc]
  | group =>
    refine (exec_bind_of_ok (Place.exec_requireOutermost_of_isQuery hx hy .group) _).trans ?_
    simp only [Grouping.clauses, item, tell, pure_bind, bind_assoc]

theorem exec_apply_listed (hx : n.context? c = some y) (hy : y.isQuery)
    (gathers : l.Gathers call g v x n) :
    exec ((l.listedStep g).apply call builder (.context c) x) n = exec (do
      let w ← l.item call v x
      let _ ← fresh
      c.update (l.tell [w])
      return x) n := by
  have lists (k : List Value → Run Value) : exec (do k (← itemsOf (← call g [x]))) n =
      exec (do
        let w ← l.item call v x
        let _ ← fresh
        k [w]) n := by
    refine (exec_bind_congr gathers _).trans ?_
    simp only [newList, itemsOf, bind_assoc, pure_bind]
  cases l with
  | sort ascending =>
    refine (exec_bind_of_ok (Place.exec_requireOutermost_of_isQuery hx hy .sort) _).trans ?_
    simp only [Ordering.clauses, bind_assoc]
    exact lists _
  | group =>
    refine (exec_bind_of_ok (Place.exec_requireOutermost_of_isQuery hx hy .group) _).trans ?_
    simp only [Grouping.clauses, bind_assoc]
    exact lists _

/-- A query can always be told what to sort or group by. -/
theorem exec_tell {m : Machine} (created : m.created? c = some .query) (l : KeyListing)
    (items : List Value) :
    ∃ z, exec (do c.update (l.tell items); return x) m =
        (.ok x, { m with contexts := m.contexts.set c.index z }) ∧
      exec (do c.update (l.tell items); return x) m.skipped =
        (.ok x, { m with contexts := m.contexts.set c.index z }.skipped) := by
  obtain ⟨r, b, orders, hx⟩ := Machine.exists_query_of_created? created
  obtain ⟨z, hz⟩ : ∃ z, l.tell items ⟨r, .query b orders⟩ = .ok z := by
    cases l <;> exact ⟨_, rfl⟩
  refine ⟨z, ?_, ?_⟩
  · exact exec_bind_of_ok (a := ()) (exec_update_eq_ok.mpr ⟨_, z, hx, hz, rfl⟩) _
  · have held : m.skipped.context? c = some ⟨r, .query b orders⟩ := hx
    exact exec_bind_of_ok (a := ()) (exec_update_eq_ok.mpr ⟨_, z, held, hz, rfl⟩) _

theorem item_keeps (hc : ∀ f args, Keeps Lasting (call f args)) (v x : Value) (l : KeyListing) :
    Keeps Lasting (l.item call v x) := by
  cases l with
  | sort ascending => exact (Projection.read_keeps hc _ _).bind fun _ => Expression.sorted_keeps _ _
  | group => exact Projection.read_keeps hc _ _

/-- A step that lists its one key does what the step does that has it, and takes a number for the
list. -/
theorem apply_skips (hc : ∀ f args, Keeps Lasting (call f args)) (hx : n.context? c = some y)
    (built : y.isQuery → builder.requireBuilder = pure ()) (gathers : l.Gathers call g v x n) :
    Skips (exec ((l.directStep v).apply call builder (.context c) x) n)
      (exec ((l.listedStep g).apply call builder (.context c) x) n) := by
  by_cases hy : y.isQuery
  · have created : n.created? c = some .query := by
      obtain ⟨r, kind⟩ := y
      rw [Machine.created?, hx]
      cases kind with
      | query => rfl
      | _ => cases hy
    rw [exec_apply_direct hx hy (built hy), exec_apply_listed hx hy gathers]
    rcases hw : exec (l.item call v x) n with ⟨e | w, n₁⟩
    · rw [exec_bind_of_error hw, exec_bind_of_error hw]
      exact .error e n₁
    · obtain ⟨z, told, told'⟩ :=
        exec_tell (x := x) ((item_keeps hc v x l).of_exec hw c _ created) l [w]
      rw [exec_bind_of_ok hw, exec_bind_of_ok hw, told, exec_bind_of_ok (exec_fresh n₁)]
      exact told' ▸ .ok x _
  · have refused (a : Arranging) :=
      requireOutermost_refused hx (Bool.eq_false_iff.mpr hy) a
    have error {f k : ContextId → Run Value} (a : Arranging) :
        Skips (exec (do f (← requireOutermost (.context c) a)) n)
          (exec (do k (← requireOutermost (.context c) a)) n) := by
      rw [exec_bind_of_error (refused a), exec_bind_of_error (refused a)]
      exact .error _ n
    cases l with
    | sort => exact error .sort
    | group => exact error .group

end Steps

end KeyListing

/-! ### Functions that list a key -/

namespace KeyListing

variable {v x : Value} {n : Machine} {scope : Scope} {p : String} {l : KeyListing}

/-- What a function evaluates to list the key. -/
def body (e : Expr) : KeyListing → Expr
  | sort ascending => .list [.sorted (if ascending then .asc else .desc) e]
  | group => .list [e]

/-- A function written as `s -> [s.key]` lists what the key stands for. -/
theorem gathers_of_get {e : Mapped} {a : Attribute} (ha : e.attribute? a.key = some a) (depth id : Nat)
    (spells : Spells (callAny (eval (depth + 4))) a.key v) :
    l.Gathers (callAny (eval (depth + 4)))
      (.closure ⟨id, [p], l.body (.get (.variable p) a.key), scope⟩) v (.mapped e) n := by
  unfold Gathers item
  rw [spells.read ha]
  unfold callAny callClosure
  cases l <;>
    simp [body, eval, evalStep, evalAll, readVariable, Mapped.property?_eq ha, orExternal]

end KeyListing

/-! ### The same query -/

/-- Two streams are built alike on `m`, up to the numbers and addresses of what each build makes: both
builds fail alike, or they give counterparts and their queries are the same. -/
def Stream.SameBuilds (call : Call) (T : Terminal) (m : Machine) (s t : Stream) : Prop :=
  let build : Run Value := T.run call s
  let build' : Run Value := T.run call t
  ∃ ρ : Renaming, ρ.Fixes m.extent ∧
    (exec build' m).1 = (exec build m).1.map (Value.rename ρ) ∧
    ∀ v, (exec build m).1 = .ok v → SameQuery ρ (after build m) (after build' m) m.nextContext ∧
      ∀ q, v = .query q → (after build' m).query? (q.rename ρ) =
        ((after build m).query? q).map (Executable.rename ρ)

section Builds

variable {call : Call} {T : Terminal} {m n n' : Machine} {s t u : Stream} {W : Moment} {F : Footprint}

theorem Stream.SameBuilds.of_errors {e : Error} (known : m.Known W)
    (failed : exec (T.run call s) m = (.error e, n)) (failed' : exec (T.run call t) m = (.error e, n')) :
    s.SameBuilds call T m t := by
  refine ⟨.resume m.extent m.extent (.refl _) known.positive, Renaming.resume_self_fixes _ _, ?_, ?_⟩
  · rw [failed, failed']
    rfl
  · rw [failed]
    nofun

theorem Stream.SameBuilds.of_alike {ρ : Renaming} (fixes : ρ.Fixes m.extent) (closed : m.Revisited F m)
    (result : Counterpart ρ F (exec (T.run call s) m).1 (exec (T.run call t) m).1)
    (alike : Alike false ρ F (after (T.run call s) m) (after (T.run call t) m)) :
    s.SameBuilds call T m t := by
  refine ⟨ρ, fixes, result.eq, fun v hv => ⟨?_, ?_⟩⟩
  · exact .of_alike alike (closed.contexts.later _ (Nat.le_refl _))
  · rintro q rfl
    exact (alike.query? (result.within _ hv)).eq

end Builds

/-! ### Chains -/

theorem Configurer.exists_of_extend {v w : Value} {step : Step} {m n : Machine}
    (h : exec (Configurer.extend v step) m = (.ok w, n)) :
    ∃ id origin before, w = .configurer ⟨id, origin, before ++ [step]⟩ ∧
      ∀ call builder query,
        Configurer.run call ⟨id, origin, before⟩ builder query = configure call v builder query := by
  obtain ⟨id, m₁, -, h⟩ := exec_bind_eq_ok.mp h
  cases v with
  | configurer c =>
    obtain ⟨rfl, -⟩ := exec_pure_eq_ok.mp h
    exact ⟨id, c.origin, c.steps, rfl, fun _ _ _ => rfl⟩
  | _ =>
    obtain ⟨rfl, -⟩ := exec_pure_eq_ok.mp h
    exact ⟨id, _, [], rfl, fun _ _ _ => bind_pure _⟩

theorem Stream.exists_of_extend {s t : Stream} {step : Step} {m n : Machine}
    (h : exec (s.extend step) m = (.ok t, n)) :
    ∃ id origin before, t.configurer = .configurer ⟨id, origin, before ++ [step]⟩ ∧
      ∀ call builder query,
        Configurer.run call ⟨id, origin, before⟩ builder query =
          configure call s.configurer builder query := by
  obtain ⟨w, m₁, extended, h⟩ := exec_bind_eq_ok.mp h
  obtain ⟨id, m₂, -, h⟩ := exec_bind_eq_ok.mp h
  obtain ⟨rfl, -⟩ := exec_pure_eq_ok.mp h
  exact Configurer.exists_of_extend extended

namespace KeyListing

variable {s t u : Stream} {v g : Value} {l : KeyListing} {ops : List StreamOp}

/-- What is sorted or grouped by does not decide whether the step is accepted. -/
theorem parallel (hv : v.isSelector) (hg : g.isNull = false) (l : KeyListing) (s : Stream) :
    Parallel ((l.direct v).apply s) ((l.listed g).apply s) ∧
      Parallel ((l.listed g).apply s) ((l.direct v).apply s) := by
  have twin : s.Twin s := .refl s
  cases l with
  | sort ascending =>
    change Parallel (s.orderBy v _) (s.orderByListed g) ∧ Parallel (s.orderByListed g) (s.orderBy v _)
    simp only [Stream.orderBy, Stream.orderByListed, expressionSelector_eq hv, hg, pure_bind,
      Bool.false_eq_true, ↓reduceIte]
    exact ⟨.extend_unbounded twin, .extend_unbounded twin⟩
  | group =>
    change Parallel (s.groupBy v) (s.groupByListed g) ∧ Parallel (s.groupByListed g) (s.groupBy v)
    simp only [Stream.groupBy, Stream.groupByListed, expressionSelector_eq hv, hg, pure_bind,
      Bool.false_eq_true, ↓reduceIte]
    exact ⟨.extend_unbounded twin, .extend_unbounded twin⟩

theorem exists_configurer (hv : v.isSelector) (chain : u.Chained (l.direct v :: ops) t) :
    ∃ id origin before, t.configurer = .configurer
        ⟨id, origin, (before ++ [l.directStep v]) ++ StreamOp.steps u.queryType ops⟩ ∧
      ∀ call builder query,
        Configurer.run call ⟨id, origin, before⟩ builder query =
          configure call u.configurer builder query := by
  obtain ⟨s, m, n, first, rest⟩ := chain.exists_first
  have extended : ∃ m₁, exec (u.extend (l.directStep v)) m₁ = (.ok s, n) := by
    cases l with
    | sort ascending =>
      change exec (u.orderBy v _) m = _ at first
      simp only [Stream.orderBy, expressionSelector_eq hv, pure_bind] at first
      obtain ⟨_, m₁, -, extended⟩ := exec_bind_eq_ok.mp first
      exact ⟨m₁, extended⟩
    | group =>
      change exec (u.groupBy v) m = _ at first
      simp only [Stream.groupBy, expressionSelector_eq hv, pure_bind] at first
      obtain ⟨_, m₁, -, extended⟩ := exec_bind_eq_ok.mp first
      exact ⟨m₁, extended⟩
  obtain ⟨m₁, extended⟩ := extended
  obtain ⟨id, origin, before, shape, runs⟩ := Stream.exists_of_extend extended
  obtain ⟨id', shape'⟩ := rest.continues.configurer _ shape
  rw [(StreamOp.apply_continues first).queryType] at shape'
  exact ⟨id', origin, before, shape', runs⟩

section Runs

variable {T : Terminal} {m n : Machine} {o : Opening} {x : Value} {t' : Stream} {W : Moment}
  {F : Footprint} (depth : Nat)

/-- Where a chain comes to the step, having a key listed takes one number more. -/
theorem skips_of_reaches (reached : u.Reaches (callAny (eval depth)) T m o x n)
    (gathers : l.Gathers (callAny (eval depth)) g v x n) :
    Skips (exec ((l.directStep v).apply (callAny (eval depth)) o.builder m.nextQuery x) n)
      (exec ((l.listedStep g).apply (callAny (eval depth)) o.builder m.nextQuery x) n) := by
  have lasting (f : Value) (args : List Value) : Keeps Lasting (callAny (eval depth) f args) :=
    callAny_eval_keeps depth f args
  obtain ⟨y, hy⟩ := reached.exists_context lasting
  refine apply_skips lasting hy (fun isQuery => ?_) gathers
  cases hT : T.nests with
  | false =>
    obtain ⟨t, -, rfl⟩ := Terminal.opening_of_not_nests hT reached.opened
    rfl
  | true =>
    obtain ⟨z, hz, sub⟩ := reached.exists_subquery lasting hT
    obtain rfl := Option.some.inj (hy.symm.trans hz)
    obtain ⟨r, kind⟩ := y
    cases kind with
    | subquery => cases isQuery
    | _ => cases sub

/-- A subquery is neither sorted nor grouped. -/
theorem exec_directStep_of_nests (hT : T.nests) (reached : u.Reaches (callAny (eval depth)) T m o x n)
    (v : Value) (l : KeyListing) :
    exec ((l.directStep v).apply (callAny (eval depth)) o.builder m.nextQuery x) n =
      (.error (.arrangedSubquery l.arranging), n) := by
  obtain ⟨y, hy, sub⟩ := reached.exists_subquery (callAny_eval_keeps depth) hT
  have refuses : (l.directStep v).refusal? = some (.arrangedSubquery l.arranging) := by
    cases l <;> rfl
  exact (Step.apply_refused (L := Idle) refuses hy sub _).exec_eq

/-- A chain that has its key listed builds what it builds with the key itself. -/
theorem same_builds (hm : m.Known W) (known : t.Known W) (within : t.Within F)
    (closed : m.Revisited F m) (hv : v.isSelector) (chain : u.Chained (l.direct v :: ops) t)
    (chain' : u.Chained (l.listed g :: ops) t')
    (gathers : ∀ o x n, u.Reaches (callAny (eval depth)) T m o x n →
      l.Gathers (callAny (eval depth)) g v x n) :
    t.SameBuilds (callAny (eval depth)) T m t' := by
  have plain := l.direct_isStructural v
  have plain' := l.listed_isStructural g
  have steps := direct_step? (l := l) hv u.queryType
  have steps' := l.listed_step? g u.queryType
  obtain ⟨o, x, n, reached⟩ | ⟨e, n, failed, failed'⟩ := Stream.Chained.exists_reaches_or_failed plain
    plain' steps steps' chain chain' (callAny (eval depth)) T m
  case inr => exact .of_errors hm failed failed'
  have skips := skips_of_reaches depth reached (gathers o x n reached)
  generalize hl : exec ((l.listedStep g).apply (callAny (eval depth)) o.builder m.nextQuery x) n = r
    at skips
  generalize hd : exec ((l.directStep v).apply (callAny (eval depth)) o.builder m.nextQuery x) n = r'
    at skips
  cases skips with
  | error e n₁ =>
    exact .of_errors hm (chain.exec_run_of_failed steps reached hd)
      (chain'.exec_run_of_failed steps' reached hl)
  | ok y n₁ =>
    cases hT : T.nests with
    | true => cases (exec_directStep_of_nests depth hT reached v l).symm.trans hd
    | false =>
      have opened := (chain.opening T m).trans reached.opened
      obtain ⟨id, origin, before, shape, runs⟩ := exists_configurer hv chain
      have came : exec (Configurer.run (callAny (eval depth))
          ⟨id, origin, before ++ [l.directStep v]⟩ o.builder m.nextQuery) (o.inside m) = (.ok y, n₁) := by
        rw [Configurer.run_append, runs, exec_bind_of_ok reached.configured]
        exact (exec_bind_of_ok hd _).trans rfl
      have goes : exec (configure (callAny (eval depth)) t'.configurer o.builder m.nextQuery)
          (o.inside m) = exec (Step.applyAll (callAny (eval depth)) o.builder m.nextQuery y
            (StreamOp.steps u.queryType ops)) n₁.skipped := by
        rw [chain'.configure_eq steps', exec_bind_of_ok reached.configured]
        exact exec_bind_of_ok hl _
      obtain ⟨ρ, fixes, result, alike⟩ := Stream.runs_alike_of_skipped depth hT hm known within closed
        shape opened came (chain.twin_of_first plain plain' chain') goes
      exact .of_alike fixes closed result alike

end Runs

end KeyListing

end FluentQuery
