import LuaSymbols.Table
import LuaSymbols.Text.Basic

/-!
# Environment files

An environment file sets variables, a line each: a name, an equals sign and a value.
`export` may precede the name, and the name may be quoted or stand alone. A value in
single or double quotes may go over several lines and has escapes; any other one ends
with its line or at a comment. A line that is none of this is passed over from where it
goes wrong.

In a value, `$` and a name in braces stand for a variable set before or outside
(`EnvFile.resolve`). Behind the name, `:-` leads what stands there if there is none.
-/

namespace LuaSymbols

/-- Variables in the order in which they were first set. -/
abbrev Environment := Table String

namespace EnvFile

/-- A name, and its value unless the name stands alone. -/
structure Binding where
  name : String
  value : Option String
  deriving DecidableEq, Repr

/-- What was read and the rest behind it, or the rest at which reading went wrong. -/
abbrev Reading (α : Type) := Except (List Char) (α × List Char)

/-! ## Lines -/

/-- White space inside a line. -/
def isGap (c : Char) : Bool := isBlank c && c != '\n'

def skipGap (cs : List Char) : List Char := cs.dropWhile isGap

def lineOf (cs : List Char) : List Char := cs.takeWhile (· != '\n')

def behindLine (cs : List Char) : List Char := cs.dropWhile (· != '\n')

/-- Passes over a comment, if there is one. -/
def skipComment (cs : List Char) : List Char :=
  match skipGap cs with
  | '#' :: rest => behindLine rest
  | _ => cs

/-- Passes over the end of a line, where nothing but a comment may be left. -/
def endLine (cs : List Char) : Except (List Char) (List Char) :=
  match skipGap (skipComment cs) with
  | [] => .ok []
  | '\n' :: rest => .ok rest
  | _ => .error cs

/-! ## Names -/

def exportWord : List Char := "export".toList

/-- Passes over `export`, if white space follows it. -/
def skipExport (cs : List Char) : List Char :=
  let rest := cs.drop exportWord.length
  if exportWord.isPrefixOf cs ∧ rest.head?.any isGap then skipGap rest else cs

def isNameChar (c : Char) : Bool := c != '=' && c != '#' && !isBlank c

/-- Reads a name; a comment has none. -/
def readName (cs : List Char) : Reading (Option String) :=
  match cs with
  | '#' :: _ => .ok (none, cs)
  | '\x27' :: inner =>
    let name := inner.takeWhile (· != '\x27')
    match name, inner.dropWhile (· != '\x27') with
    | _ :: _, _ :: rest => .ok (some (String.ofList name), rest)
    | _, _ => .error cs
  | _ =>
    match cs.takeWhile isNameChar with
    | [] => .error cs
    | name => .ok (some (String.ofList name), cs.dropWhile isNameChar)

/-! ## Values -/

/-- The text before the first quote with no backslash in front, and the rest behind it. -/
def toOpenQuote? (quote : Char) : List Char → Option (List Char × List Char)
  | [] => none
  | '\\' :: c :: cs =>
    if c = quote then (toOpenQuote? quote cs).map fun (a, b) => ('\\' :: c :: a, b)
    else (toOpenQuote? quote (c :: cs)).map fun (a, b) => ('\\' :: a, b)
  | c :: cs =>
    if c = quote then some ([], cs) else (toOpenQuote? quote cs).map fun (a, b) => (c :: a, b)

/-- The text before the last quote, and the rest behind it. -/
def toLastQuote? (quote : Char) (cs : List Char) : Option (List Char × List Char) :=
  match cs.reverse.dropWhile (· != quote) with
  | [] => none
  | _ :: before => some (before.reverse, (cs.reverse.takeWhile (· != quote)).reverse)

/-- The text up to the closing quote. A quote behind a backslash closes only if no other
one does. -/
def toQuote? (quote : Char) (cs : List Char) : Option (List Char × List Char) :=
  (toOpenQuote? quote cs).or (toLastQuote? quote cs)

/-- The escapes in single quotes. -/
def fewEscapes : List (Char × Char) := [('\\', '\\'), ('\x27', '\x27')]

/-- The escapes in double quotes. -/
def allEscapes : List (Char × Char) :=
  fewEscapes ++ [('"', '"'), ('a', '\x07'), ('b', '\x08'), ('f', '\x0c'), ('n', '\n'), ('r', '\r'),
    ('t', '\t'), ('v', '\x0b')]

def unescape (escapes : List (Char × Char)) : List Char → List Char
  | [] => []
  | '\\' :: c :: cs =>
    match escapes.lookup c with
    | some d => d :: unescape escapes cs
    | none => '\\' :: unescape escapes (c :: cs)
  | c :: cs => c :: unescape escapes cs

/-- The text before a comment: a `#` behind white space. -/
def withoutComment : List Char → List Char
  | [] => []
  | c :: cs => if isBlank c && cs.head? == some '#' then [] else c :: withoutComment cs

def readQuoted (quote : Char) (escapes : List (Char × Char)) (cs : List Char) : Reading String :=
  match toQuote? quote (cs.drop 1) with
  | some (text, rest) => .ok (String.ofList (unescape escapes text), rest)
  | none => .error cs

def readValue (cs : List Char) : Reading String :=
  match cs with
  | '\x27' :: _ => readQuoted '\x27' fewEscapes cs
  | '"' :: _ => readQuoted '"' allEscapes cs
  | _ => .ok (strip (String.ofList (withoutComment (lineOf cs))), behindLine cs)

/-! ## Bindings -/

/-- Reads a value behind an equals sign, if there is one. -/
def readAssigned (cs : List Char) : Reading (Option String) :=
  match skipGap cs with
  | '=' :: rest => (readValue (skipGap rest)).map fun (v, rest) => (some v, rest)
  | rest => .ok (none, rest)

def readBinding (cs : List Char) : Except (List Char) (Option Binding × List Char) := do
  let (name, cs) ← readName (skipExport cs)
  let (value, cs) ← readAssigned cs
  let cs ← endLine cs
  return (name.map (Binding.mk · value), cs)

/-- Every reading takes a character at least, so the length of the text is fuel enough. -/
def bindingsFrom : Nat → List Char → List Binding
  | 0, _ => []
  | fuel + 1, cs =>
    match cs.dropWhile isBlank with
    | [] => []
    | cs =>
      match readBinding cs with
      | .ok (b, rest) => b.toList ++ bindingsFrom fuel rest
      | .error rest => bindingsFrom fuel (behindLine rest)

def bindings (text : String) : List Binding := bindingsFrom text.length text.toList

/-! ## Variables in values -/

/-- The name of a variable, what stands in for it, and the rest behind it. -/
def reference? : List Char → Option (String × String × List Char)
  | '$' :: '\x7b' :: cs =>
    let name := cs.takeWhile fun c => c != '\x7d' && c != ':'
    match cs.drop name.length with
    | '\x7d' :: rest => some (String.ofList name, "", rest)
    | ':' :: '-' :: cs =>
      match cs.dropWhile (· != '\x7d') with
      | _ :: rest => some (String.ofList name, String.ofList (cs.takeWhile (· != '\x7d')), rest)
      | [] => none
    | _ => none
  | _ => none

def expandFrom (lookup : String → Option String) : Nat → List Char → List Char
  | 0, _ => []
  | _, [] => []
  | fuel + 1, c :: cs =>
    match reference? (c :: cs) with
    | some (name, default, rest) =>
      ((lookup name).getD default).toList ++ expandFrom lookup fuel rest
    | none => c :: expandFrom lookup fuel cs

/-- A value with the values of its variables. -/
def expand (lookup : String → Option String) (value : String) : String :=
  String.ofList (expandFrom lookup value.length value.toList)

/-- Whether variables of the environment or of the file come first. -/
inductive Precedence where
  | environment
  | file
  deriving DecidableEq, Repr

def Precedence.lookup (p : Precedence) (env : Environment) (own : Table (Option String))
    (name : String) : Option String :=
  let inFile := (own.get? name).map (·.getD "")
  match p with
  | .environment => (env.get? name).or inFile
  | .file => inFile.or (env.get? name)

/-- The variables of a file, each value with those before it. -/
def resolve (p : Precedence) (env : Environment) (bs : List Binding) : Table (Option String) :=
  bs.foldl (fun own b => own.set b.name (b.value.map (expand (p.lookup env own)))) []

end EnvFile

end LuaSymbols
