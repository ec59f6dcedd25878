import FluentQuery.Sql.Term
import FluentQuery.Text.Case
import FluentQuery.Text.Quoted

/-!
SQL functions: the standard ones, which are known by name in any case, how many
arguments they take and what they give, and how the name of a function is written.
-/

namespace FluentQuery.Sql.Function

/-- The functions SQL knows; any other name is a function of the database. -/
def standard : List String :=
  ["aggregate_strings", "array_agg", "char_length", "coalesce", "concat", "count", "cube",
    "cume_dist", "current_date", "current_time", "current_timestamp", "current_user",
    "dense_rank", "grouping_sets", "localtime", "localtimestamp", "max", "min", "mode", "now",
    "percent_rank", "percentile_cont", "percentile_disc", "random", "rank", "rollup",
    "session_user", "sum", "sysdate", "user"]

def isStandard (name : String) : Bool := standard.contains name

/-- Names that are no functions of their arguments alone, or of no values at all. -/
def special : List String := ["cast", "extract", "next_value"]

/-- The name of a function as it was asked for: an underscore at the end sets a function apart from
a word of the language, and those known by name are known in any case. -/
def resolve? (asked : String) : Option String :=
  let cs := asked.toList
  if "__".toList.isPrefixOf cs || asked = "opts" then none
  else
    let cs := if cs.getLast? = some '_' then cs.dropLast else cs
    let name := String.ofList cs
    let plain := Text.lower name
    some (if isStandard plain || special.contains plain then plain else name)

/-- Whether a function takes `n` arguments. -/
def accepts (name : String) (n : Nat) : Bool :=
  if name = "count" then n ≤ 1
  else if name = "char_length" then n = 1
  else if name = "aggregate_strings" then n = 2
  else true

/-- What the parameters for plain values among the arguments of a function are named after. -/
def argumentBase (name : String) : String := if name = "array_agg" then "param" else name

/-- The type of a call: that of its first typed argument for the functions that pass values
through. -/
def type (name : String) (args : List Term) : SqlType :=
  if ["count", "char_length", "rank", "dense_rank"].contains name then .integer
  else if ["concat", "aggregate_strings", "current_user", "session_user", "user"].contains name then
    .string
  else if ["percent_rank", "cume_dist"].contains name then .decimal
  else if ["current_date", "current_time", "current_timestamp", "localtime", "localtimestamp",
      "now", "sysdate"].contains name then .moment
  else if name = "array_agg" then .array
  else if ["max", "min", "sum", "coalesce"].contains name then
    (args.map Term.type).find? (· ≠ .unknown) |>.getD .unknown
  else .unknown

/-- The functions written as key words. -/
def keywords : List (String × String) :=
  [("current_date", "CURRENT_DATE"), ("current_time", "CURRENT_TIME"),
    ("current_timestamp", "CURRENT_TIMESTAMP"), ("current_user", "CURRENT_USER"),
    ("localtime", "LOCALTIME"), ("localtimestamp", "LOCALTIMESTAMP"),
    ("session_user", "SESSION_USER"), ("sysdate", "sysdate"), ("user", "USER")]

/-- The functions written in capitals, always with parentheses. -/
def capitals : List (String × String) :=
  [("cube", "CUBE"), ("grouping_sets", "GROUPING SETS"), ("rollup", "ROLLUP")]

end FluentQuery.Sql.Function

namespace FluentQuery.Sql

/-! ### Names in the text -/

/-- Letters, digits, the underscore and the dollar sign, with the four letters whose other case is
among them. -/
def isNameChar (c : Char) : Bool :=
  c.isAlphanum || c == '_' || c == '$' || [0x130, 0x131, 0x17f, 0x212a].contains c.toNat

/-- A name in double quotes, which are doubled inside. -/
def quotedName (s : String) : String :=
  String.ofList ('"' :: s.toList.flatMap (fun c => if c = '"' then [c, c] else [c]) ++ ['"'])

/-- Whether a name has characters that no plain name has. -/
def hasForeignChar (s : String) : Bool := s.isEmpty || !s.toList.all isNameChar

/-- The name of a function in the text. -/
def functionName (name : String) : String :=
  if hasForeignChar name then quotedName name else name

/-- The name of a label in the text: one with capitals, or a digit in front, is quoted too. -/
def labelName (name : String) : String :=
  let startsPlain := match name.toList with
    | c :: _ => !c.isDigit && c != '$'
    | [] => false
  if hasForeignChar name || !startsPlain || name.toList.any (·.isUpper) then quotedName name
  else name

/-- Why the percent signs of a function's name cannot be expanded. -/
inductive DirectiveError where
  /-- No such directive. -/
  | unknown
  /-- A field that is not the arguments. -/
  | missing
  /-- A directive that does not take what it is given. -/
  | misused
  deriving DecidableEq, Repr

/-- Expands the directives in the name of a function: a percent sign is written twice, `%(expr)s`
stands for the arguments, and the first of `%s`, `%r` and `%a` for the mapping that holds them. -/
def expandDirectives (list : String) (taken : Bool) : List Char → Except DirectiveError (List Char)
  | [] => .ok []
  | '%' :: '%' :: cs => do return '%' :: (← expandDirectives list taken cs)
  | '%' :: '(' :: 'e' :: 'x' :: 'p' :: 'r' :: ')' :: 's' :: cs => do
    return list.toList ++ (← expandDirectives list true cs)
  | '%' :: '(' :: _ => .error .missing
  | '%' :: c :: cs => do
    if ['s', 'r', 'a'].contains c then
      if taken then .error .misused
      else
        let shown := "\x7b'expr': " ++ Text.quoted list ++ "\x7d"
        return shown.toList ++ (← expandDirectives list true cs)
    else if "diouxXeEfFgGc -+#0123456789.*".toList.contains c then .error .misused
    else .error .unknown
  | '%' :: [] => .error .unknown
  | c :: cs => do return c :: (← expandDirectives list taken cs)

/-- The text of a call, given those of its arguments. -/
def callText (name : String) (bare : Bool) (args : List String) : Except DirectiveError String :=
  let list := "(" ++ ", ".intercalate args ++ ")"
  match Function.keywords.lookup name, Function.capitals.lookup name with
  | some word, _ => .ok (if bare then word else word ++ list)
  | none, some word => .ok (word ++ list)
  | none, none => do
    let written ← expandDirectives list false (functionName name).toList
    return String.ofList written ++ list

/-- Characters that would break a generated name; a run of them becomes one underscore. -/
def isUnsafe (c : Char) : Bool := ['%', '(', ')', ' ', '$'].contains c

def sanitizeFrom (inside : Bool) : List Char → List Char
  | [] => []
  | c :: cs =>
    if isUnsafe c then if inside then sanitizeFrom true cs else '_' :: sanitizeFrom true cs
    else c :: sanitizeFrom false cs

/-- What the label of an expression starts from, given its name. -/
def labelBase (name : String) : String :=
  if name.isEmpty then "anon" else String.ofList (sanitizeFrom false name.toList)

/-- What a parameter starts from, given the name of the expression beside it. -/
def parameterBase (name : String) : String :=
  let trim (cs : List Char) := cs.dropWhile (· == '_')
  String.ofList (trim (trim (sanitizeFrom false name.toList)).reverse).reverse

/-- The text of a character in the name of a parameter. -/
def parameterChar (c : Char) : Char :=
  match c with
  | '%' => 'P'
  | '(' => 'A'
  | ')' => 'Z'
  | ':' => 'C'
  | '.' | '[' | ']' | ' ' => '_'
  | c => c

/-- The name of a parameter in the text. -/
def parameterName (name : String) : String := name.map parameterChar

end FluentQuery.Sql
