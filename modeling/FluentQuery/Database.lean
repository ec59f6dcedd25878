import FluentQuery.Datum

/-!
The one database connection of a process: an engine, and a factory of sessions
over it.
-/

namespace FluentQuery.Database

/-- The settings that a connection falls back on. -/
structure Defaults where
  url : Datum
  echo : Datum

/-- What an engine was made from. -/
structure EngineOptions where
  url : String
  options : List (String × Datum)

/-- A factory of sessions over the engine of a number. -/
structure SessionFactory where
  engine : Nat
  autoflush : Bool
  expireOnCommit : Bool
  deriving DecidableEq, Repr

structure State where
  /-- How many engines were made. -/
  made : Nat
  engine : Option Nat
  factory : Option SessionFactory
  deriving DecidableEq, Repr

inductive Fault where
  | noUrl
  | notInitialized
  /-- An address that is no text, or an argument given twice. -/
  | external
  deriving DecidableEq, Repr

/-- The message of a fault; misuse has none. -/
def Fault.message? : Fault → Option String
  | noUrl => some "No database URL given and QUERYSTREAM_DATABASE_URL is not set."
  | notInitialized => some "Database not initialized. Call init_db() first."
  | external => none

def closed : State := ⟨0, none, none⟩

/-- `key` with `v`, unless it is there already. -/
def withDefault (key : String) (v : Datum) (fields : List (String × Datum)) :
    List (String × Datum) :=
  if fields.any (·.1 == key) then fields else fields ++ [(key, v)]

/-- The address to use: the one given, or else the default. -/
def chooseUrl (defaults : Defaults) (url : Datum) : Except Fault String :=
  match if url.truthy then url else defaults.url with
  | .text s => if s.isEmpty then .error .noUrl else .ok s
  | v => if v.truthy then .error .external else .error .noUrl

/-- The options of an engine: `echo` from the caller or the defaults, then what the caller gave;
SQLite connections may be used from several threads unless the caller says otherwise. -/
def engineOptions (defaults : Defaults) (url : String) (options : List (String × Datum)) :
    List (String × Datum) :=
  let echo := match options.lookup "echo" with
    | none | some .null => defaults.echo
    | some v => v
  let all := ("echo", echo) :: options.filter (·.1 != "echo")
  if "sqlite".toList.isPrefixOf url.toList then
    withDefault "connect_args" (.mapping [("check_same_thread", .bool false)]) all
  else all

/-- How the database toolkit answers when it is asked for something: with a failure, or with none. -/
structure Toolkit where
  /-- Making an engine. -/
  engineFailure? : EngineOptions → Option Fault
  /-- Making a session factory over the engine of a number. -/
  factoryFailure? : Nat → Option Fault
  /-- Disposing of the engine of a number. -/
  disposalFailure? : Nat → Option Fault

/-- A toolkit that never fails. -/
def Toolkit.unfailing : Toolkit := ⟨fun _ => none, fun _ => none, fun _ => none⟩

/-- Makes an engine, and then a factory over it. -/
def connectWith (toolkit : Toolkit) (defaults : Defaults) (url : Datum)
    (options : List (String × Datum)) (s : State) : Except Fault EngineOptions × State :=
  if options.any (·.1 == "database_url") then (.error .external, s)
  else match chooseUrl defaults url with
    | .error e => (.error e, s)
    | .ok url =>
      let engine : EngineOptions := ⟨url, engineOptions defaults url options⟩
      match toolkit.engineFailure? engine with
      | some e => (.error e, s)
      | none =>
        let begun : State := { s with made := s.made + 1, engine := some s.made }
        match toolkit.factoryFailure? s.made with
        | some e => (.error e, begun)
        | none => (.ok engine, { begun with factory := some ⟨s.made, false, false⟩ })

def connect (defaults : Defaults) (url : Datum) (options : List (String × Datum)) (s : State) :
    Except Fault EngineOptions × State :=
  connectWith .unfailing defaults url options s

def currentEngine (s : State) : Except Fault Nat :=
  match s.engine with
  | some i => .ok i
  | none => .error .notInitialized

/-- The factory that query builders get their sessions from. -/
def currentFactory (s : State) : Except Fault SessionFactory :=
  match s.factory with
  | some f => .ok f
  | none => .error .notInitialized

/-- The state without engine and factory. -/
def close (s : State) : State := { s with engine := none, factory := none }

/-- Disposes of the engine, if there is one, and then forgets it and its factory. -/
def closeWith (toolkit : Toolkit) (s : State) : Except Fault Unit × State :=
  match s.engine.bind toolkit.disposalFailure? with
  | some e => (.error e, s)
  | none => (.ok (), close s)

@[simp] theorem currentEngine_close (s : State) :
    currentEngine (close s) = .error .notInitialized := rfl

@[simp] theorem currentFactory_close (s : State) :
    currentFactory (close s) = .error .notInitialized := rfl

end FluentQuery.Database
