import FluentQuery.Sql.Condition
import FluentQuery.Sql.Precedence

/-!
The FROM list of a statement: roots with their joins, the sources other
clauses mention, and what a subquery leaves to the statement around it.
-/

namespace FluentQuery.Sql

/-- Two columns that a join makes equal. -/
structure Equality where
  left : ColumnRef
  right : ColumnRef
  deriving DecidableEq, Repr

/-- One element of a FROM list. -/
inductive FromItem where
  | source (s : Source)
  | join (left right : FromItem) (on : Equality) (outer : Bool)
  deriving DecidableEq, Repr

namespace FromItem

/-- The tables and aliases an element reads. -/
def sources : FromItem → List Source
  | source s => [s]
  | join left right _ _ => left.sources ++ right.sources

/-- The sources that a join takes out of the list it stands in. -/
def hidden : FromItem → List Source
  | source _ => []
  | item@(join ..) => item.sources

def reads (item : FromItem) (s : Source) : Bool := item.sources.contains s

/-- `s` is `base` itself or an alias of the table that `base` is. -/
def stems (base s : Source) : Bool :=
  s == base || (base.alias? == none && s.table == base.table)

/-- The source inside `item` that stands for `base`. -/
def standIn (item : FromItem) (base : Source) : Source :=
  if item.reads base then base else (item.sources.find? (stems base)).getD base

/-- Joins a relationship of `owner` to `item`. A relationship through a pairing table reads an
alias of it, numbered `pairing`. -/
def extend (item : FromItem) (owner : Source) (j : Join) (pairing : Nat) : FromItem :=
  let target := j.target.source
  let outer := j.outer == some true
  match j.relationship.link with
  | .toOne c => .join item (.source target) ⟨⟨target, .id⟩, ⟨owner, c⟩⟩ outer
  | .toMany c => .join item (.source target) ⟨⟨owner, .id⟩, ⟨target, c⟩⟩ outer
  | .through table left right =>
    let pair : Source := ⟨table, some (.joined pairing)⟩
    let near : Equality := ⟨⟨owner, .id⟩, ⟨pair, left⟩⟩
    let far : Equality := ⟨⟨target, .id⟩, ⟨pair, right⟩⟩
    if outer then .join item (.join (.source pair) (.source target) far false) near true
    else .join (.join item (.source pair) near false) (.source target) far false

end FromItem

/-- The positions of the elements a join of `owner` can be hung on: those that read an alias of it
or itself, and only the latter if several do. -/
def joinPositions (items : List FromItem) (owner : Source) : List Nat :=
  let positions (p : FromItem → Bool) : List Nat :=
    (items.zipIdx.filter (fun x => p x.1)).map Prod.snd
  let loose := positions (fun item => item.sources.any (FromItem.stems owner))
  let own := positions (·.reads owner)
  if loose.length > 1 && !own.isEmpty then own else loose

/-- Adds one join to a FROM list; none if its place is ambiguous. -/
def addJoin (items : List FromItem) (j : Join) (pairing : Nat) : Option (List FromItem) :=
  let owner := j.owner.source
  match joinPositions items owner with
  | [] => some (items ++ [(FromItem.source owner).extend owner j pairing])
  | [i] => some (items.modify i (fun item => item.extend (item.standIn owner) j pairing))
  | _ => none

/-- Adds all joins, numbering pairing aliases from `pairing` on. -/
def addJoins (pairing : Nat) : List FromItem → List Join → Option (List FromItem × Nat)
  | items, [] => some (items, pairing)
  | items, j :: js => do
    let items ← addJoin items j pairing
    addJoins (pairing + 1) items js

mutual

/-- The tables and aliases an expression mentions; those of a nested statement are its own. -/
def Term.sources : Term → List Source
  | .column c => [c.source]
  | .arithmetic _ _ ts | .group _ ts | .function _ _ ts => Term.sourcesOfAll ts
  | .compare _ _ left right => left.sources ++ right.sources
  | .condition _ _ t | .negation _ t | .extract _ t | .cast _ _ t | .distinct t | .among _ t _
  | .sorted _ t => t.sources
  | .constant _ | .literal _ | .parameter .. | .star | .nonempty _ | .scalar _ | .whole _
  | .label _ => []

def Term.sourcesOfAll : List Term → List Source
  | [] => []
  | t :: ts => t.sources ++ Term.sourcesOfAll ts

end

def Assignment.sources : Assignment → List Source
  | plain .. => []
  | computed _ t => t.sources

mutual

/-- The sources of the columns of an expression, each with its depth: an operand is one level below
its operator, enclosed one more, and an argument three levels below its function. -/
def Term.depths (depth : Nat) : Term → List (Nat × Source)
  | .column c => [(depth, c.source)]
  | .arithmetic op _ ts => Term.operandDepths depth (.arithmetic op) ts
  | .group op ts => Term.operandDepths depth (.connective op) ts
  | .function _ _ ts => Term.operandDepths (depth + 2) .outermost ts
  | .compare _ _ left right =>
    left.depths (depth + 1 + left.enclosure .comparison) ++
      right.depths (depth + 1 + right.enclosure .comparison)
  | .condition _ _ t | .extract _ t | .cast _ _ t => t.depths (depth + 1)
  | .negation _ t => t.depths (depth + 1 + t.enclosure .negation)
  | .distinct t => t.depths (depth + 1 + t.enclosure .distinctness)
  | .among _ t _ => t.depths (depth + 1 + t.enclosure .comparison)
  | .sorted _ t => t.depths (depth + 1 + t.enclosure .ordering)
  | .constant _ | .literal _ | .parameter .. | .star | .nonempty _ | .scalar _ | .whole _
  | .label _ => []

def Term.operandDepths (depth : Nat) (outer : Operator) : List Term → List (Nat × Source)
  | [] => []
  | t :: ts => t.depths (depth + 1 + t.enclosure outer) ++ Term.operandDepths depth outer ts

end

/-- The first of the sources nearest to the top. -/
def nearestSource : List (Nat × Source) → Option Source
  | [] => none
  | (d, s) :: rest =>
    match rest.find? (·.1 < d) with
    | none => some s
    | some _ => nearestSource rest

mutual

/-- Whether an expression brings an entity into the statement it stands in. A condition brings none
of its own, nor does a field of a date. -/
def Term.carriesEntity : Term → Bool
  | .column _ => true
  | .arithmetic _ _ ts | .function _ _ ts => Term.anyCarriesEntity ts
  | .compare _ _ left right => left.carriesEntity || right.carriesEntity
  | .negation _ t | .cast _ _ t | .distinct t | .among _ t _ | .sorted _ t => t.carriesEntity
  | .nonempty s | .scalar s => s.carriesEntity
  | .whole s => s.carriesEntity
  | .group .. | .condition .. | .extract .. | .constant _ | .literal _ | .parameter .. | .star
  | .label _ => false

def Term.anyCarriesEntity : List Term → Bool
  | [] => false
  | t :: ts => t.carriesEntity || Term.anyCarriesEntity ts

def SelectItem.anyCarriesEntity : List SelectItem → Bool
  | [] => false
  | .mapped _ :: _ => true
  | .expression (.relationship _) _ :: items => SelectItem.anyCarriesEntity items
  | .expression _ t :: items => t.carriesEntity || SelectItem.anyCarriesEntity items
  | .verbatim _ :: items => SelectItem.anyCarriesEntity items

def Select.carriesEntity : Select → Bool
  | .mk items _ roots _ conditions groupBy _ orderBy correlation _ _ _ =>
    match correlation with
    | .allBut _ => false
    | _ =>
      !roots.isEmpty || SelectItem.anyCarriesEntity items || Term.anyCarriesEntity conditions ||
        Term.anyCarriesEntity groupBy || Term.anyCarriesEntity orderBy

def Statement.carriesEntity : Statement → Bool
  | .select s => s.carriesEntity
  | .delete .. | .update .. => true

end

namespace SelectItem

def sources : SelectItem → List Source
  | mapped m => [m.source]
  | expression _ t => t.sources
  | verbatim _ => []

/-- The source that an entry of a select list is a part of. -/
def principal? : SelectItem → Option Source
  | mapped m => some m.source
  | expression (.relationship a) _ => some a.owner.source
  | expression _ t => nearestSource (t.depths 0)
  | verbatim _ => none

end SelectItem

/-- Drops repeated elements and those that a join already reads. -/
def distinctItems (items : List FromItem) : List FromItem :=
  let items := items.eraseDups
  let hidden := items.flatMap FromItem.hidden
  items.filter fun
    | .source s => !hidden.contains s
    | .join .. => true

/-- All elements of the FROM list of `s` before correlation, and the next number of a pairing
alias. A statement over entities without roots starts from those its entries are parts of. -/
def Select.fromItems (s : Select) (pairing : Nat) : Option (List FromItem × Nat) := do
  let (explicit, pairing) ← addJoins pairing (s.roots.map .source) s.joins
  let implicit := if s.carriesEntity then s.items.filterMap SelectItem.principal? else []
  let base := if explicit.isEmpty then implicit.map .source else explicit
  let mentioned := s.items.flatMap SelectItem.sources ++ Term.sourcesOfAll s.conditions
  return (distinctItems (base ++ mentioned.map .source), pairing)

/-- The columns that the elements of a FROM list provide, in their order. -/
def providedColumns (items : List FromItem) : List ColumnRef :=
  items.flatMap FromItem.sources |>.flatMap fun s => s.table.columns.map (⟨s, ·⟩)

/-- What stands around an expression: the statements, by what the innermost and what all of them
read, and what a bare name means in the innermost; none outside any statement. -/
structure Scope where
  nearest : List Source
  every : List Source
  names : Option (List (String × Term))

namespace Scope

/-- Outside any statement. -/
def top : Scope := ⟨[], [], none⟩

/-- Inside a statement that reads `sources`. -/
def nest (scope : Scope) (sources : List Source) (names : List (String × Term)) : Scope :=
  ⟨sources, sources ++ scope.every, some names⟩

/-- The elements a statement lists itself. One that must not list all that it mentions keeps at
least one. -/
def keep? (scope : Scope) (correlation : Correlation) (items : List FromItem) :
    Option (List FromItem) :=
  let without (drop : Source → Bool) := items.filter fun
    | .source s => !drop s
    | .join .. => true
  match correlation with
  | .only roots => some (without fun s => roots.contains s && scope.every.contains s)
  | .allBut own => some (without fun s => scope.every.contains s && !own.contains s)
  | .automatic =>
    if !scope.nearest.isEmpty && items.length > 1 then
      let kept := without scope.nearest.contains
      if kept.isEmpty then none else some kept
    else some items

end Scope

end FluentQuery.Sql
