import FluentQuery.Datum
import FluentQuery.Settings.VariableFile
import FluentQuery.Text.Case
import FluentQuery.Text.Half

/-!
Settings read from initial values, environment variables and a file of
variables, in this order of precedence. Names are matched without regard to case.
-/

namespace FluentQuery

structure Settings where
  databaseUrl : Option String
  echo : Bool
  logCompiledSql : Bool
  allowUnfilteredBulk : Bool
  deriving DecidableEq, Repr

namespace Settings

/-- Where settings come from. -/
structure Sources where
  initial : List (String × Datum)
  environment : List (String × String)
  file : Option String

inductive Field where
  | databaseUrl | echo | logCompiledSql | allowUnfilteredBulk
  deriving DecidableEq, Repr

/-- Why a value is refused. -/
inductive Fault where
  /-- The text or number means neither true nor false. -/
  | boolParsing
  /-- No text, no number, or a number that is no whole one of 64 bits. -/
  | boolType
  | stringType
  /-- A word with half a surrogate pair in it. -/
  | halfPair
  deriving DecidableEq, Repr

def Field.name : Field → String
  | databaseUrl => "DATABASE_URL"
  | echo => "ECHO"
  | logCompiledSql => "LOG_COMPILED_SQL"
  | allowUnfilteredBulk => "ALLOW_UNFILTERED_BULK"

/-- What names start with outside the program. -/
def namespaceName : String := "QUERYSTREAM_"

/-- The value of the last of several entries of one name. -/
def lastNamed {α : Type} (name : String) (entries : List (String × α)) : Option α :=
  (entries.reverse.find? fun x => Text.lower x.1 == Text.lower name).map Prod.snd

/-! ### Values -/

/-- The value of highest precedence for a field, if any source gives one. An initial value of
exactly its name comes first. -/
def Sources.value? (s : Sources) (f : Field) : Option Datum :=
  let outside := namespaceName ++ f.name
  let fromFile := (s.file.map (VariableFile.readText s.environment)).getD []
  s.initial.lookup f.name <|> lastNamed f.name s.initial <|>
    (lastNamed outside s.environment).map .text <|>
    ((lastNamed outside fromFile).bind id).map .text

def trueWords : List String := ["1", "on", "t", "true", "y", "yes"]

def falseWords : List String := ["0", "off", "f", "false", "n", "no"]

def boolOfText (s : String) : Except Fault Bool :=
  if s.toList.any (Text.half? · |>.isSome) then .error .halfPair
  else if trueWords.contains s.toLower then .ok true
  else if falseWords.contains s.toLower then .ok false
  else .error .boolParsing

def boolOfInt (n : Int) : Except Fault Bool :=
  if n = 1 then .ok true
  else if n = 0 then .ok false
  else if -Int.pow 2 63 ≤ n ∧ n < Int.pow 2 63 then .error .boolParsing
  else .error .boolType

/-- A number without fraction means what the whole number means. -/
def boolOfFloat (x : Binary64) : Except Fault Bool :=
  match x.whole? with
  | some n => if x.isWhole ∧ n ≠ -Int.pow 2 63 then boolOfInt n else .error .boolType
  | none => .error .boolType

def toBool : Datum → Except Fault Bool
  | .bool b => .ok b
  | .int n => boolOfInt n
  | .float x => boolOfFloat x
  | .text s => boolOfText s
  | .null | .list _ | .mapping _ => .error .boolType

def toText : Datum → Except Fault (Option String)
  | .null => .ok none
  | .text s => .ok (some s)
  | _ => .error .stringType

def plainScheme : List Char := "postgresql://".toList

def asyncScheme : List Char := "postgresql+asyncpg://".toList

/-- Plain PostgreSQL addresses name the asynchronous driver; all others are kept. -/
def normalizeUrl (url : String) : String :=
  if plainScheme.isPrefixOf url.toList then
    String.ofList (asyncScheme ++ url.toList.drop plainScheme.length)
  else url

def readBool (s : Sources) (f : Field) : Except Fault Bool :=
  match s.value? f with
  | none => .ok false
  | some v => toBool v

def readUrl (s : Sources) : Except Fault (Option String) :=
  match s.value? .databaseUrl with
  | none => .ok none
  | some v => (toText v).map (·.map normalizeUrl)

private def fault? {α : Type} (f : Field) : Except Fault α → List (Field × Fault)
  | .ok _ => []
  | .error e => [(f, e)]

/-- The settings, or every fault in the order of the fields. -/
def load (s : Sources) : Except (List (Field × Fault)) Settings :=
  let url := readUrl s
  let echo := readBool s .echo
  let log := readBool s .logCompiledSql
  let bulk := readBool s .allowUnfilteredBulk
  match url, echo, log, bulk with
  | .ok url, .ok echo, .ok log, .ok bulk => .ok ⟨url, echo, log, bulk⟩
  | url, echo, log, bulk =>
    .error (fault? .databaseUrl url ++ fault? .echo echo ++ fault? .logCompiledSql log ++
      fault? .allowUnfilteredBulk bulk)

end Settings

end FluentQuery
