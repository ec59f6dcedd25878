import FluentQuery.Sql.From
import FluentQuery.Sql.Naming

/-!
The text of expressions and statements: parentheses by precedence, labels of a
select list, and the clauses in their order, the major ones on lines of their own.
-/

namespace FluentQuery.Sql

namespace Term

/-- Sorting or negating a bare column keeps the column's own name in a select list. -/
def keepsName : Term → Bool
  | condition _ _ (column _) | negation _ (column _) | sorted _ (column _) => true
  | _ => false

/-- What the label of an unnamed entry of a select list starts from. -/
def labelBase : Term → String
  | function name _ _ => Sql.labelBase name
  | _ => "anon"

end Term

def ColumnRef.text (c : ColumnRef) : Render String := do
  return (← c.source.reference) ++ "." ++ c.column.key

def Placeholder.text (p : Placeholder) : Render String := do
  let name ← nameOf (.placeholder p.id) (parameterBase p.base)
  parameterText name (.generated p.id) p.value

def RowBound.text (b : RowBound) : Render String := do
  let name ← nameOf (.placeholder b.id) "param"
  return ":" ++ (← parameterText name (.generated b.id) (.plain (.int b.value)))

/-- A name by which an entry of a select list can be asked for. -/
inductive EntryName where
  | plain (name : String)
  /-- A label that is generated for an expression. -/
  | label (key : ItemKey)
  deriving DecidableEq, Repr

/-- What a select list has shown so far: its columns, and the names of its entries, each with the
column it stands for. -/
structure Shown where
  columns : List ColumnRef
  names : List (EntryName × Option ColumnRef)
  repeats : Nat

/-- A label: a given name, or one to be generated from a base. -/
inductive Label where
  | given (name : String)
  | generated (key : NameKey) (base : String)

namespace Shown

def start : Shown := ⟨[], [], 0⟩

def enter (s : Shown) (name : EntryName) (c : Option ColumnRef) : Shown :=
  { s with names := (name, c) :: s.names }

/-- The label of an entry that is shown again. -/
def repeated (s : Shown) (key : ItemKey) (base : String) : Label × Shown :=
  (.generated (.repeatLabel key s.repeats) (base ++ "_"), { s with repeats := s.repeats + 1 })

/-- A column is shown under its own name, unless an earlier entry has that name. -/
def column (s : Shown) (c : ColumnRef) : Option Label × Shown :=
  let s := { s with columns := c :: s.columns }
  let key : ItemKey := .column c
  let again : Option Label × Shown :=
    let (l, s) := s.repeated key c.column.key
    (some l, s)
  match s.names.lookup (.plain c.column.key) with
  | none => (none, s.enter (.plain c.column.key) c)
  | some holder =>
    if holder == some c || (s.names.lookup (.label key)).isSome then again
    else (some (.generated (.label key) c.column.key), s.enter (.label key) c)

/-- An expression is shown under a label of its own, or that of the expression it is a condition
on or a cast of: a column keeps its name. -/
def expression (s : Shown) (key : ItemKey) (t : Term) : Option Label × Shown :=
  let (name, first) : EntryName × Label := match t with
    | .condition _ inner (.column c) =>
      (.plain c.column.key, .generated (.label inner) t.labelBase)
    | .cast _ _ (.column c) => (.plain c.column.key, .given c.column.key)
    | .condition _ inner u | .cast _ inner u =>
      (.label inner, .generated (.label inner) u.labelBase)
    | t => (.label key, .generated (.label key) t.labelBase)
  let (l, s) := if (s.names.lookup name).isSome then
      let base := match t with
        | .cast _ _ (.column c) => c.column.key
        | .condition .. | .cast .. => "anon"
        | t => t.labelBase
      (s.enter name none).repeated key base
    else (first, s.enter name none)
  (if t.keepsName then none else some l, s)

end Shown

/-- The label of an entry of a list that need not tell its entries apart. -/
def plainLabel (key : ItemKey) : Term → Option Label
  | .column _ => none
  | .cast _ _ (.column c) => some (.given c.column.key)
  | .condition _ inner t | .cast _ inner t =>
    if t matches .column _ then none else some (.generated (.label inner) t.labelBase)
  | t => if t.keepsName then none else some (.generated (.label key) t.labelBase)

/-- The text of a label, generated before the expression it labels. -/
def labelSuffix : Option Label → Render String
  | none => return ""
  | some (.given name) => return " AS " ++ labelName name
  | some (.generated key base) => return " AS " ++ labelName (← nameOf key base)

/-- All columns of an entity that the list has not shown yet. -/
def entityColumns (tellApart : Bool) (m : Mapped) (shown : Shown) :
    List Column → Render (List String × Shown)
  | [] => return ([], shown)
  | c :: cs => do
    let ref : ColumnRef := ⟨m.source, c⟩
    if shown.columns.contains ref then entityColumns tellApart m shown cs
    else
      let (label, shown) := shown.column ref
      let suffix ← labelSuffix (if tellApart then label else none)
      let text ← ref.text
      let (rest, shown) ← entityColumns tellApart m shown cs
      return ((text ++ suffix) :: rest, shown)

def Equality.text (e : Equality) : Render String := do
  let left ← e.left.text
  return left ++ " = " ++ (← e.right.text)

namespace FromItem

/-- The text of an element; a join on the right of a join is enclosed. -/
def text : FromItem → Render String
  | source s => s.declaration
  | join left right on outer => do
    let l ← left.text
    let r ← right.text
    let r := match right with
      | source _ => r
      | join .. => "(" ++ r ++ ")"
    return l ++ (if outer then " LEFT OUTER JOIN " else " JOIN ") ++ r ++ " ON " ++ (← on.text)

def textOfAll : List FromItem → Render (List String)
  | [] => return []
  | item :: items => do
    let t ← item.text
    return t :: (← textOfAll items)

end FromItem

/-- The texts that say anything: an empty group has none. -/
def written (texts : List String) : List String := texts.filter (!·.isEmpty)

/-- A clause, or nothing if it has no content. -/
def clause (keyword : String) (separator : String) (parts : List String) : String :=
  if parts.isEmpty then "" else keyword ++ separator.intercalate parts

/-- The conditions a clause shows: all but the constant true, unless nothing else is left. -/
def shownConditions (ts : List Term) : Term → Bool :=
  if ts.all (Connective.isConstant .true) then fun _ => true
  else fun t => !Connective.isConstant .true t

/-- The operator around the conditions of a clause. -/
def conditionOperator (ts : List Term) : Operator :=
  if (ts.filter (shownConditions ts)).length > 1 then .connective .and else .outermost

/-- The text of a conjunction, given the texts of the conditions it shows. -/
def conjunctionText (keyword : String) (ts : List Term) (shown : List String) : String :=
  if ts.any (Connective.isConstant .false) then keyword ++ "false"
  else if ts.all (Connective.isConstant .true) then clause keyword " AND " (shown.take 1)
  else clause keyword " AND " (written shown)

def boundsText (limit offset : Option RowBound) : Render String := do
  match limit, offset with
  | none, none => return ""
  | some l, none => return "\n LIMIT " ++ (← l.text)
  | none, some o => return "\n LIMIT -1 OFFSET " ++ (← o.text)
  | some l, some o =>
    let limit ← l.text
    return "\n LIMIT " ++ limit ++ " OFFSET " ++ (← o.text)

def orFail {α : Type} (e : RenderError) : Option α → Render α
  | some a => return a
  | none => throw e

/-! ### Bare names -/

/-- The name by which an entry of a select list can be sorted or grouped: a column is known with
its table in front, a named parameter by its name. -/
def SelectItem.sortName? : SelectItem → Option String
  | .expression _ (.column c) | .expression _ (.condition _ _ (.column c)) =>
    if c.source.alias?.isNone then some (c.source.table.name ++ "_" ++ c.column.key) else none
  | .expression _ (.parameter name _) => some name
  | _ => none

/-- The entries of a select list, a whole entity as its columns. -/
def SelectItem.entries : SelectItem → List SelectItem
  | .mapped m => m.entity.columns.map fun c =>
    .expression (.column ⟨m.source, c⟩) (.column ⟨m.source, c⟩)
  | item => [item]

/-- What bare names mean among the columns of a FROM list; the last of one name counts. -/
def providedNames (items : List FromItem) : List (String × Term) :=
  ((providedColumns items).map fun c => (c.column.key, Term.column c)).reverse

/-- What bare names mean behind a select list. -/
def listedNames (items : List SelectItem) : List (String × Term) :=
  (items.flatMap SelectItem.entries).filterMap (fun
    | item@(.expression _ t) => item.sortName?.map (·, t)
    | _ => none) |>.reverse

/-- The text of what a bare name means. -/
def namedText : Term → Render String
  | .column c => c.text
  | .condition negated _ (.column c) => return (if negated then "NOT " else "") ++ (← c.text)
  | .parameter name _ => return ":" ++ (← parameterText name .named .null)
  | _ => return ""

/-- The text of a bare name: itself outside any statement, else that of what it means there. -/
def bareText (scope : Scope) (name : String) : Render String :=
  match scope.names with
  | none => return name
  | some names => do namedText (← orFail (.unresolvedLabel name) (names.lookup name))

/-! ### Statements -/

/-- The sources that the parts of a bulk statement read beside its target. -/
def extraSources (target : Source) (read : List Source) : List Source :=
  (read.filter (· != target)).eraseDups

mutual

def Term.text (scope : Scope) : Term → Render String
  | .column c => c.text
  | .constant c => return c.symbol
  | .literal p => return ":" ++ (← p.text)
  | .parameter name _ => return ":" ++ (← parameterText name .named .null)
  | .arithmetic op _ ts => do
    return (" " ++ op.symbol ++ " ").intercalate
      (← Term.operandTexts scope (.arithmetic op) (fun _ => true) ts)
  | .compare op _ left right => do
    let l ← left.text scope
    let r ← right.text scope
    return enclose .comparison left l ++ " " ++ op.symbol ++ " " ++ enclose .comparison right r
  | .group op ts => do
    return (" " ++ op.symbol ++ " ").intercalate
      (written (← Term.operandTexts scope (.connective op) (fun _ => true) ts))
  | .condition negated _ t => do
    let s := enclose .negation t (← t.text scope)
    return if negated then "NOT " ++ s else s
  | .negation _ t => return "NOT " ++ enclose .negation t (← t.text scope)
  | .function name _ ts => do
    let args ← Term.operandTexts scope .outermost (fun _ => true) ts
    match callText name ts.isEmpty (written args) with
    | .ok text => return text
    | .error e => throw (.directive e)
  | .extract field t => do
    let field ← orFail .unwritable field
    return "EXTRACT(" ++ field ++ " FROM " ++ (← t.text scope) ++ ")"
  | .cast type _ t => do
    return "CAST(" ++ (← t.text scope) ++ " AS " ++ type.getD "NULL" ++ ")"
  | .star => return "*"
  | .distinct t => return "DISTINCT " ++ enclose .distinctness t (← t.text scope)
  | .among negated t values => do
    let l := enclose .comparison t (← t.text scope)
    let name ← values.text
    let list := "(__[POSTCOMPILE_" ++ name ++ "])"
    return if negated then "(" ++ l ++ " NOT IN " ++ list ++ ")" else l ++ " IN " ++ list
  | .nonempty s => return "EXISTS (" ++ (← s.text false scope) ++ ")"
  | .scalar s => return "(" ++ (← s.text false scope) ++ ")"
  | .whole s => s.text scope
  | .sorted d t => return enclose .ordering t (← t.text scope) ++ " " ++ d.symbol
  | .label name => bareText scope name

/-- The texts of those operands of `outer` that `keep` admits. -/
def Term.operandTexts (scope : Scope) (outer : Operator) (keep : Term → Bool) :
    List Term → Render (List String)
  | [] => return []
  | t :: ts => do
    if keep t then
      let s ← t.text scope
      return enclose outer t s :: (← Term.operandTexts scope outer keep ts)
    else Term.operandTexts scope outer keep ts

/-- The texts of the entries of a select list, each with its label. -/
def SelectItem.texts (scope : Scope) (tellApart : Bool) (shown : Shown) :
    List SelectItem → Render (List String)
  | [] => return []
  | .mapped m :: items => do
    let (columns, shown) ← entityColumns tellApart m shown m.entity.columns
    return columns ++ (← SelectItem.texts scope tellApart shown items)
  | .verbatim text :: items => return text :: (← SelectItem.texts scope tellApart shown items)
  | .expression key t :: items => do
    if t matches .cast (some _) .. then throw .unwritable
    let (label, shown) := match t with
      | .column c => shown.column c
      | t => shown.expression key t
    let suffix ← labelSuffix (if tellApart then label else plainLabel key t)
    let text ← t.text scope
    return (text ++ suffix) :: (← SelectItem.texts scope tellApart shown items)

/-- The text of a SELECT; `tellApart` tells whether the entries of its list get names that tell them
apart. -/
def Select.text (tellApart : Bool) (scope : Scope) : Select → Render String
  | .mk items distinct roots joins conditions groupBy having orderBy correlation limit offset
      supplied => do
    let statement : Select := ⟨items, distinct, roots, joins, conditions, groupBy, having, orderBy,
      correlation, limit, offset, supplied⟩
    if items.isEmpty then throw .emptySelectList
    if joins.any (·.outer.isNone) then throw .undecided
    modify (·.supply supplied)
    let (all, pairings) ← orFail .ambiguousJoin (statement.fromItems (← get).pairings)
    modify fun n => { n with pairings }
    let kept ← orFail .nothingLeft (scope.keep? correlation all)
    let read := kept.flatMap FromItem.sources
    let inList := scope.nest read (providedNames all)
    let inner := scope.nest read (listedNames items ++ providedNames all)
    let columns ← SelectItem.texts inList tellApart .start items
    let froms ← FromItem.textOfAll kept
    let wheres ← Term.operandTexts inner (conditionOperator conditions) (shownConditions conditions)
      conditions
    let groups ← Term.operandTexts inner .outermost (fun _ => true) groupBy
    let havings ← Term.operandTexts inner (conditionOperator having) (shownConditions having) having
    let orders ← Term.operandTexts inner .outermost (fun _ => true) orderBy
    let bounds ← boundsText limit offset
    return (if distinct then "SELECT DISTINCT " else "SELECT ") ++ ", ".intercalate columns ++
      clause " \nFROM " ", " froms ++ conjunctionText " \nWHERE " conditions wheres ++
      clause " GROUP BY " ", " (written groups) ++ conjunctionText " \nHAVING " having havings ++
      clause " ORDER BY " ", " (written orders) ++ bounds

/-- The text of the assignment to a column, if there is one. -/
def Assignment.text? (scope : Scope) (column : Column) : List Assignment → Render (Option String)
  | [] => return none
  | .plain c l :: rest => do
    if c != column then Assignment.text? scope column rest
    else return some (c.key ++ "=:" ++ (← parameterText c.key .assigned l))
  | .computed c t :: rest => do
    if c != column then Assignment.text? scope column rest
    else return some (c.key ++ "=" ++ enclose .assignment t (← t.text scope))

def Statement.text (scope : Scope) : Statement → Render String
  | .select s => s.text true scope
  | .delete target conditions => do
    let extra := extraSources target (Term.sourcesOfAll conditions)
    let inner := scope.nest (target :: extra) []
    let table ← target.declaration
    let others ← FromItem.textOfAll (extra.map .source)
    let wheres ← Term.operandTexts inner (conditionOperator conditions)
      (shownConditions conditions) conditions
    return "DELETE FROM " ++ table ++ clause " , " ", " others ++
      conjunctionText " WHERE " conditions wheres
  | .update target assignments conditions => do
    let extra := extraSources target.source
      (Term.sourcesOfAll conditions ++ assignments.flatMap Assignment.sources)
    let inner := scope.nest (target.source :: extra) []
    let table ← target.source.declaration
    let sets ← target.entity.columns.mapM fun c => Assignment.text? inner c assignments
    let others ← FromItem.textOfAll (extra.map .source)
    let wheres ← Term.operandTexts inner (conditionOperator conditions)
      (shownConditions conditions) conditions
    return "UPDATE " ++ table ++ clause " SET " ", " (sets.filterMap id) ++
      clause " FROM " ", " others ++ conjunctionText " WHERE " conditions wheres

end

/-- A finished text with the values of its parameters, by name. -/
structure Rendered where
  text : String
  parameters : List (String × Literal)

def run (r : Render String) : Except RenderError Rendered := do
  let (text, n) ← r.run .empty
  return ⟨text, n.values⟩

/-- The text of a statement. -/
def Statement.render (s : Statement) : Except RenderError Rendered := run (s.text .top)

/-- The text of an expression that stands alone. -/
def Term.render (t : Term) : Except RenderError Rendered := run (t.text .top)

end FluentQuery.Sql
