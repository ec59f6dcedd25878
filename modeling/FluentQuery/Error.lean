/-!
Everything that can go wrong while a query is built or run, by cause, with the
class each cause belongs to and its message.
-/

namespace FluentQuery

/-- Failures a program can raise by name, or that a session raises; they carry no message. -/
inductive Signal where
  | keyError | valueError | runtimeError | noResultFound | multipleResultsFound
  deriving DecidableEq, Repr

/-- The two row bounds. -/
inductive Bounding where
  | skip | limit
  deriving DecidableEq, Repr

/-- What a subquery refuses because only the outermost query supports it. -/
inductive Arranging where
  | sort | group
  deriving DecidableEq, Repr

inductive Error where
  /-- A required argument is null; `what` names it. -/
  | null (what : String)
  | unsupportedContext (kind : String)
  | unsupportedAttribute (shown : String)
  | noAttribute (selection key : String)
  | notRelationship (shown : String)
  | notSelector (what kind : String)
  | invalidBound (b : Bounding)
  | negative (b : Bounding)
  | noOrders
  | orderNotPair (position : Nat)
  | notMapped (shown : String)
  | noRoots
  | noAssignments
  | wrongTarget (context target given : String)
  | outerFromCorrelated
  | throughFromCorrelated
  | cannotSelect (kind : String)
  | alreadyBound
  | unbound
  | noActiveContext
  | notASubquery
  /-- A structural operation after the row bounds were set. -/
  | afterBounds (operation : String)
  | boundedSubquery (b : Bounding)
  | arrangedSubquery (a : Arranging)
  | countDistinctRows
  | boundedBulk
  | unfilteredBulk (shown : String)
  | undefinedVariable (name : String)
  | signal (s : Signal)
  /-- Any other misuse: a wrong number of arguments, a missing method, something SQL cannot
  express. -/
  | external
  deriving DecidableEq, Repr

/-- The classes errors are reported under. -/
inductive ErrorClass where
  | invalidArgument | alreadyBound | unboundReference | noActiveContext | notASubquery
  | unsupportedCombination | badProgram | signal (s : Signal) | external
  deriving DecidableEq, Repr

namespace Error

def errorClass : Error → ErrorClass
  | alreadyBound => .alreadyBound
  | unbound => .unboundReference
  | noActiveContext => .noActiveContext
  | notASubquery => .notASubquery
  | afterBounds _ | boundedSubquery _ | arrangedSubquery _ | countDistinctRows | boundedBulk
  | unfilteredBulk _ => .unsupportedCombination
  | undefinedVariable _ => .badProgram
  | signal s => .signal s
  | external => .external
  | _ => .invalidArgument

private def outermostOnly (restriction : String) : String :=
  "sorry, " ++ restriction ++
    " because SQL only supports a row offset or row count limit on the outermost query"

private def boundWord : Bounding → String
  | .skip => "skip"
  | .limit => "limit"

/-- The message of an error; signals and external failures have none. -/
def message? : Error → Option String
  | null what => some ("null " ++ what)
  | unsupportedContext kind => some ("unsupported query context " ++ kind)
  | unsupportedAttribute shown => some ("unsupported attribute " ++ shown)
  | noAttribute selection key =>
    some ("selection " ++ selection ++ " has no attribute '" ++ key ++ "'")
  | notRelationship shown => some ("attribute " ++ shown ++ " is not a relationship")
  | notSelector what kind =>
    some (what ++ " must be an attribute or a callable, not " ++ kind)
  | invalidBound .skip => some "invalid first_result"
  | invalidBound .limit => some "invalid max_results"
  | negative b => some (boundWord b ++ " < 0")
  | noOrders => some "no orders"
  | orderNotPair position =>
    some ("order " ++ toString position ++ " must be an (attribute, asc) pair")
  | notMapped shown => some (shown ++ " is not a mapped entity")
  | noRoots => some "query has no roots"
  | noAssignments => some "update has no SET clauses"
  | wrongTarget context target given =>
    some (context ++ " targets " ++ target ++ ", not " ++ given)
  | outerFromCorrelated => some "outer joins from a correlated root are not supported"
  | throughFromCorrelated =>
    some "joins through an association table are not supported from a correlated root"
  | cannotSelect kind => some ("cannot select from " ++ kind)
  | alreadyBound => some "reference is already bound"
  | unbound => some "reference is not bound"
  | noActiveContext => some "subquery not created in the context of a containing query"
  | notASubquery =>
    some "streams built with QueryBuilder.substream() can only be used in subqueries"
  | afterBounds operation =>
    some (outermostOnly (operation ++ " must be performed prior to skip() or limit()"))
  | boundedSubquery b =>
    some (outermostOnly ("can't invoke " ++ boundWord b ++ "() on a subquery"))
  | arrangedSubquery a =>
    some ("sorry, can't " ++ (match a with | .sort => "sort" | .group => "group") ++
      " a subquery because ORDER BY and GROUP BY are only supported on the outermost query")
  | countDistinctRows => some "sorry, can't count distinct rows of a multi-column selection"
  | boundedBulk => some "bulk statements do not support a row offset or row limit"
  | unfilteredBulk shown => some ("Refusing to run " ++ shown ++ " without filters")
  | undefinedVariable name => some ("undefined variable " ++ name)
  | signal _ | external => none

end Error

end FluentQuery
