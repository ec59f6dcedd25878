import FluentQuery.Proofs.Builds

/-! What the operations of a chain say about the query it builds. Each step says one
thing, an entry, whose values are those of its callables and attributes on the selection
current at that step. The entries of a run, in order, are its trail. -/

namespace FluentQuery

/-- What one step of a chain says about the query. -/
inductive Entry where
  | condition (e : Value)
  | order (items : List Value)
  | grouping (items : List Value)
  | having (e : Value)
  | distinct
  | root (r : RefId) (entity : Entity) (number : Nat)
  | join (plan : JoinPlan) (number : Nat)
  | selection (v : Value)
  | count (v : Value)
  | bound (r : RefId) (v : Value)
  /-- The step says nothing about the query. -/
  | aside

namespace Entry

def condition? : Entry → Option Value
  | condition e => some e
  | _ => none

def order? : Entry → Option (List Value)
  | order items => some items
  | _ => none

def grouping? : Entry → Option (List Value)
  | grouping items => some items
  | _ => none

def having? : Entry → Option Value
  | having e => some e
  | _ => none

/-- Whether distinct rows are asked for from this entry on. -/
def mark? : Entry → Option Bool
  | distinct => some true
  | count _ => some false
  | _ => none

def root? : Entry → Option Value
  | root _ entity n => some (.mapped ⟨entity, some n⟩)
  | _ => none

def join? : Entry → Option JoinPlan
  | join plan _ => some plan
  | _ => none

def selection? : Entry → Option Value
  | join plan _ => some (.mapped plan.target)
  | selection v | count v => some v
  | _ => none

/-- What the entry puts into a Ref. -/
def bound? : Entry → Option (RefId × Value)
  | root r entity n => some (r, .mapped ⟨entity, some n⟩)
  | bound r v => some (r, v)
  | _ => none

/-- The number of the alias that the entry brings. -/
def number? : Entry → Option Nat
  | root _ _ n | join _ n => some n
  | _ => none

/-- A body that was told the entry. -/
def tell (b : SelectBody) : Entry → SelectBody
  | grouping items => { b with groupBy := items }
  | having e => { b with having := e }
  | distinct => { b with distinct := .bool true }
  | count _ => { b with distinct := .bool false }
  | root _ entity n => { b with roots := b.roots ++ [.mapped ⟨entity, some n⟩] }
  | join plan _ => { b with joins := b.joins ++ [plan] }
  | condition _ | order _ | selection _ | bound .. | aside => b

theorem tell_roots_ne_nil {b : SelectBody} (h : b.roots ≠ []) (e : Entry) :
    (e.tell b).roots ≠ [] := by
  cases e <;> simp [tell, h]

theorem tell_distinct {b : SelectBody} {d : Bool} (h : b.distinct = .bool d) (e : Entry) :
    (e.tell b).distinct = .bool (e.mark?.getD d) := by
  cases e <;> simp [tell, mark?, h]

/-- What was asked for last counts; roots and joins add up. -/
theorem foldl_tell (es : List Entry) (b : SelectBody) {d : Bool} (h : b.distinct = .bool d) :
    es.foldl tell b =
      { roots := b.roots ++ es.filterMap root?
        joins := b.joins ++ es.filterMap join?
        groupBy := (es.filterMap grouping?).getLastD b.groupBy
        having := (es.filterMap having?).getLastD b.having
        distinct := .bool ((es.filterMap mark?).getLastD d)
        selection := b.selection } := by
  induction es generalizing b d with
  | nil => simp [← h]
  | cons e es ih =>
    rw [List.foldl_cons, ih (e.tell b) (tell_distinct h e)]
    cases e <;>
      simp only [tell, root?, join?, grouping?, having?, mark?, List.filterMap_cons,
        List.getLastD_cons, List.append_assoc, List.cons_append, List.nil_append,
        Option.getD_some, Option.getD_none]

end Entry

/-- `new` is `old` with these conditions joined to it, one after another. The first condition of
all stands alone. -/
inductive Conjoined : Value → List Value → Value → Prop
  | nil {r} : Conjoined r [] r
  | first {e es r} : e.isNull = false → Conjoined e es r → Conjoined .null (e :: es) r
  | more {old e es joint r m m'} : old.isNull = false →
      exec (Expression.connect .and [old, e]) m = (.ok joint, m') → Conjoined joint es r →
      Conjoined old (e :: es) r

theorem Conjoined.append {a b c : Value} {xs ys : List Value} (hab : Conjoined a xs b)
    (hbc : Conjoined b ys c) : Conjoined a (xs ++ ys) c := by
  induction hab with
  | nil => exact hbc
  | first he _ ih => exact .first he (ih hbc)
  | more ho hj _ ih => exact .more ho hj (ih hbc)

section Reads

variable (call : Call) (builder : Value) (m : Machine) (distinct : Bool) (v : Value)

/-- What a step says about the query when it starts on machine `m`, with selection `v`. -/
inductive Step.Reads : Step → Entry → Prop
  | filter {queryType p e m'} : exec (p.read call v) m = (.ok e, m') →
      Reads (.filter queryType p) (.condition e)
  | peek {f} : Reads (.peek f) .aside
  | bind {r p w m'} : exec (p.read call v) m = (.ok w, m') → Reads (.bind r p) (.bound r w)
  | distinct : Reads .distinct .distinct
  | sort {o items m'} : exec (o.clauses call builder v) m = (.ok items, m') →
      Reads (.sort o) (.order items)
  | group {g items m'} : exec (g.clauses call v) m = (.ok items, m') →
      Reads (.group g) (.grouping items)
  | having {p e m'} : exec (p.read call v) m = (.ok e, m') → Reads (.having p) (.having e)
  | addRoot {r entity target} : Context.aliasOf? m.next entity = some ⟨target, some m.next⟩ →
      Reads (.addRoot r entity) (.root r target m.next)
  | join {key outer owner r m'} : exec (resolveRelationship v key) m = (.ok (owner, r), m') →
      Reads (.join key outer) (.join ⟨owner, r, ⟨r.target, some m'.next⟩, outer⟩ m'.next)
  | map {p w m'} : exec (p.read call v) m = (.ok w, m') → Reads (.map p) (.selection w)
  | count {w contexts m'} :
      exec (counted builder distinct v) { m with contexts } = (.ok w, m') → Reads .count (.count w)
  | bounded {b} : Reads (.bounded b) .aside

end Reads

/-- The entries of a run of steps, from one machine to another. The second value is the selection
the run ends with. -/
inductive Trail (call : Call) (builder query : Value) :
    Bool → Value → List Step → List Entry → Value → Machine → Machine → Prop
  | nil {d v m} : Trail call builder query d v [] [] v m m
  | cons {d v step e m m₁ steps es w m'} : step.Reads call builder m d v e →
      exec (step.apply call builder query v) m = (.ok (e.selection?.getD v), m₁) →
      Trail call builder query (e.mark?.getD d) (e.selection?.getD v) steps es w m₁ m' →
      Trail call builder query d v (step :: steps) (e :: es) w m m'

theorem Trail.selection {call : Call} {builder query v w : Value} {d : Bool} {steps : List Step}
    {es : List Entry} {m m' : Machine} (h : Trail call builder query d v steps es w m m') :
    w = (es.filterMap Entry.selection?).getLastD v := by
  induction h with
  | nil => rfl
  | cons _ _ _ ih =>
    rename_i d v step e m m₁ steps es w m' _ _ _
    rw [ih, List.filterMap_cons]
    cases e.selection? with
    | none => rfl
    | some u => rw [List.getLastD_cons]; rfl

end FluentQuery
