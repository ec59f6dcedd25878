import FluentQuery.Association
import FluentQuery.Text.Blank

/-!
Files of variables: a name and a value to a line, with comments, quoted values
that may go over several lines, and references to other variables. A line that
cannot be read is skipped.
-/

namespace FluentQuery.VariableFile

/-- A variable, and its value if the file gives it one. -/
abbrev Binding := String × Option String

/-- Line ends of all kinds as line feeds. -/
def unifyLineEnds : List Char → List Char
  | [] => []
  | '\r' :: '\n' :: cs => '\n' :: unifyLineEnds cs
  | '\r' :: cs => '\n' :: unifyLineEnds cs
  | c :: cs => c :: unifyLineEnds cs

/-- A text without the byte order mark that a file may begin with. -/
def withoutMark : List Char → List Char
  | '\ufeff' :: cs => cs
  | cs => cs

/-! ### Parts of a line -/

/-- A blank inside a line. -/
def isGap (c : Char) : Bool := Text.isBlank c && c != '\n'

def skipGap (cs : List Char) : List Char := cs.dropWhile isGap

/-- What is left of the line after an unreadable part, and the lines behind it. -/
def nextLine (cs : List Char) : List Char := (cs.dropWhile (· != '\n')).drop 1

/-- The text behind a leading `export`. -/
def skipExport (cs : List Char) : List Char :=
  let word := "export".toList
  let rest := cs.drop word.length
  if word.isPrefixOf cs && (rest.head?.map isGap).getD false then skipGap rest else cs

def isNameChar (c : Char) : Bool := !Text.isBlank c && c != '=' && c != '#'

/-- Reads a name, in single quotes or without; a comment stands for no name. What cannot be read is
left over. -/
def readName (cs : List Char) : Except (List Char) (Option String × List Char) :=
  let named (name rest : List Char) :=
    if name.isEmpty then .error cs else .ok (some (String.ofList name), rest)
  match cs with
  | '#' :: _ => .ok (none, cs)
  | '\'' :: quoted =>
    match quoted.dropWhile (· != '\'') with
    | _ :: rest => named (quoted.takeWhile (· != '\'')) rest
    | [] => .error cs
  | _ => named (cs.takeWhile isNameChar) (cs.dropWhile isNameChar)

/-! ### Values -/

/-- The positions of the quotes in a text, each with whether a backslash stands right before it. -/
def quotePositions (quote : Char) (escaped : Bool) (position : Nat) : List Char → List (Nat × Bool)
  | [] => []
  | c :: cs =>
    let rest := quotePositions quote (c == '\\') (position + 1) cs
    if c == quote then (position, escaped) :: rest else rest

/-- The length of a quoted text: it ends before the first quote without a backslash, or else before
the last one. -/
def quotedLength? (quote : Char) (cs : List Char) : Option Nat :=
  let positions := quotePositions quote false 0 cs
  (positions.find? (!·.2) <|> positions.getLast?).map Prod.fst

/-- The character that a letter after a backslash stands for between quotes. -/
def escapes : Char → List (Char × Char)
  | '\'' => [('\\', '\\'), ('\'', '\'')]
  | _ => [('\\', '\\'), ('\'', '\''), ('"', '"'), ('a', '\x07'), ('b', '\x08'), ('f', '\x0c'),
      ('n', '\n'), ('r', '\r'), ('t', '\t'), ('v', '\x0b')]

/-- A quoted text with what its backslashes stand for; a backslash before any other character is
itself. -/
def unescape (known : List (Char × Char)) : List Char → List Char
  | [] => []
  | '\\' :: c :: cs =>
    match known.lookup c with
    | some d => d :: unescape known cs
    | none => '\\' :: unescape known (c :: cs)
  | c :: cs => c :: unescape known cs
termination_by cs => cs.length

/-- A line up to a comment, which follows a blank. -/
def beforeComment : List Char → List Char
  | [] => []
  | c :: cs =>
    if isGap c && (skipGap cs).head? == some '#' then [] else c :: beforeComment cs

/-- Reads a value, which stands behind the equality sign. -/
def readValue (cs : List Char) : Except (List Char) (String × List Char) :=
  match skipGap cs with
  | quote :: quoted =>
    if quote == '\'' || quote == '"' then
      match quotedLength? quote quoted with
      | some n =>
        .ok (String.ofList (unescape (escapes quote) (quoted.take n)), quoted.drop (n + 1))
      | none => .error (skipGap cs)
    else
      let line := cs.takeWhile (· != '\n')
      .ok (String.ofList (Text.trimEnd (skipGap (beforeComment line))), cs.drop line.length)
  | [] => .ok ("", [])

/-! ### Lines -/

/-- The lines behind the end of a line, which a comment may stand before. -/
def endLine (cs : List Char) : Except (List Char) (List Char) :=
  let rest := skipGap cs
  let rest := if rest.head? == some '#' then rest.dropWhile (· != '\n') else rest
  match rest with
  | [] => .ok []
  | '\n' :: rest => .ok rest
  | _ => .error rest

/-- Reads the value of a named variable. -/
def readAssigned (cs : List Char) : Except (List Char) (Option String × List Char) :=
  match skipGap cs with
  | '=' :: cs => do
    let (value, rest) ← readValue cs
    return (some value, rest)
  | cs => .ok (none, cs)

/-- Reads a line that is not blank. -/
def readLine (cs : List Char) : Except (List Char) (Option Binding × List Char) := do
  let (name?, cs) ← readName (skipExport cs)
  let (value?, cs) ← readAssigned cs
  return (name?.map (·, value?), ← endLine cs)

/-- All bindings of a text, in their order. -/
def bindings (cs : List Char) : List Binding :=
  match cs.dropWhile Text.isBlank with
  | [] => []
  | start@(_ :: _) =>
    let (binding?, rest) := match readLine start with
      | .ok (binding?, rest) => (binding?, rest)
      | .error rest => (none, nextLine rest)
    if rest.length < cs.length then binding?.toList ++ bindings rest else binding?.toList
termination_by cs.length

/-! ### References -/

/-- A reference to a variable, with what stands for one that is not known. -/
structure Reference where
  name : String
  default : String

/-- The reference a text begins with, and its length. -/
def reference? (cs : List Char) : Option (Reference × Nat) :=
  match cs with
  | '$' :: '\x7b' :: cs =>
    let name := cs.takeWhile fun c => c != '\x7d' && c != ':'
    match cs.drop name.length with
    | '\x7d' :: _ => some (⟨String.ofList name, ""⟩, name.length + 3)
    | ':' :: '-' :: cs =>
      let default := cs.takeWhile (· != '\x7d')
      if default.length < cs.length then
        some (⟨String.ofList name, String.ofList default⟩, name.length + default.length + 5)
      else none
    | _ => none
  | _ => none

/-- A text with its references replaced, after its first `skip` characters are left out. -/
def expandFrom (text : Reference → String) : Nat → List Char → List Char
  | _, [] => []
  | skip + 1, _ :: cs => expandFrom text skip cs
  | 0, c :: cs =>
    match reference? (c :: cs) with
    | some (r, length) => (text r).toList ++ expandFrom text (length - 1) cs
    | none => c :: expandFrom text 0 cs

/-- What a reference stands for: the variables of the file so far count more than those of the
environment. A variable without a value stands for nothing. -/
def Reference.resolve (environment : List (String × String)) (known : List Binding)
    (r : Reference) : String :=
  match known.lookup r.name with
  | some value? => value?.getD ""
  | none => (environment.lookup r.name).getD r.default

/-- The variables of a file, each in the place of its first binding with the value of its last. -/
def readText (environment : List (String × String)) (text : String) : List Binding :=
  let cs := unifyLineEnds (withoutMark text.toList)
  (bindings cs).foldl (fun known (name, value?) =>
    let value? := value?.map fun v =>
      String.ofList (expandFrom (Reference.resolve environment known) 0 v.toList)
    assoc name value? known) []

end FluentQuery.VariableFile
