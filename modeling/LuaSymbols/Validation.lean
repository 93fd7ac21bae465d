import LuaSymbols.Json
import LuaSymbols.Text.Integer
import LuaSymbols.Version

/-!
# Validation

A decoder takes a JSON value to a `Checked` value: the decoded thing, or every
issue found on the way, in the order of the fields. Decoders are lenient where a
value says clearly what is meant: `"7"` and `7.0` are the integer 7, `"on"` is true.
An issue also says whether the refused value can be written again.
-/

namespace LuaSymbols

/-- A step from a value into it. -/
inductive Place where
  | key (name : String)
  | index (i : Nat)
  deriving DecidableEq, Repr

def Place.toJson : Place → Json
  | .key name => .string name
  | .index i => .nat i

namespace Issue

inductive Cause where
  | missing
  | notText
  | brokenText
  | emptyText
  | notInteger
  | unreadableInteger
  | tooLarge
  | notFinite
  | fractional
  | negative
  | notBoolean
  | unreadableBoolean
  | notList
  | unknownVersion
  | notObject (name : String)
  | bodyNotObject
  | unknownSymbolKind
  | malformedJson
  deriving DecidableEq, Repr

namespace Cause

def code : Cause → String
  | missing => "missing"
  | notText => "string_type"
  | brokenText => "string_unicode"
  | emptyText => "string_too_short"
  | notInteger => "int_type"
  | unreadableInteger => "int_parsing"
  | tooLarge => "int_parsing_size"
  | notFinite => "finite_number"
  | fractional => "int_from_float"
  | negative => "greater_than_equal"
  | notBoolean => "bool_type"
  | unreadableBoolean => "bool_parsing"
  | notList => "list_type"
  | unknownVersion => "enum"
  | notObject _ => "model_type"
  | bodyNotObject => "model_attributes_type"
  | unknownSymbolKind => "value_error"
  | malformedJson => "json_invalid"

def message : Cause → String
  | missing => "Field required"
  | notText => "Input should be a valid string"
  | brokenText =>
    "Input should be a valid string, unable to parse raw data as a unicode string"
  | emptyText => "String should have at least 1 character"
  | notInteger => "Input should be a valid integer"
  | unreadableInteger => "Input should be a valid integer, unable to parse string as an integer"
  | tooLarge => "Unable to parse input string as an integer, exceeded maximum size"
  | notFinite => "Input should be a finite number"
  | fractional => "Input should be a valid integer, got a number with a fractional part"
  | negative => "Input should be greater than or equal to 0"
  | notBoolean => "Input should be a valid boolean"
  | unreadableBoolean => "Input should be a valid boolean, unable to interpret input"
  | notList => "Input should be a valid list"
  | unknownVersion => "Input should be '5.1', '5.2', '5.3', '5.4' or 'LuaJIT'"
  | notObject name => "Input should be a valid dictionary or instance of " ++ name
  | bodyNotObject => "Input should be a valid dictionary or object to extract fields from"
  | unknownSymbolKind => "Value error, Kind must be 'function' or 'method'"
  | malformedJson => "JSON decode error"

end Cause

end Issue

/-- What is wrong with a value, and where in it. -/
structure Issue where
  path : List Place
  cause : Issue.Cause
  /-- Whether the value that is refused can be written. -/
  isWritable : Bool := true
  deriving DecidableEq, Repr

namespace Issue

def under (p : Place) (i : Issue) : Issue := { i with path := p :: i.path }

def toJson (i : Issue) : Json :=
  .object [("type", .string i.cause.code), ("loc", .array (i.path.map Place.toJson)),
    ("msg", .string i.cause.message)]

end Issue

inductive Checked (α : Type) where
  | valid (a : α)
  | invalid (issues : List Issue)
  deriving DecidableEq, Repr

namespace Checked

variable {α β : Type}

/-- Refuses a value. -/
def refuse (c : Issue.Cause) (j : Json) : Checked α := .invalid [⟨[], c, j.isWritable⟩]

def map (f : α → β) : Checked α → Checked β
  | .valid a => .valid (f a)
  | .invalid issues => .invalid issues

/-- Applies one checked value to another; the issues of both are kept. -/
def ap : Checked (α → β) → Checked α → Checked β
  | .valid f, c => c.map f
  | .invalid issues, .valid _ => .invalid issues
  | .invalid issues, .invalid more => .invalid (issues ++ more)

/-- A further check of a value that is valid so far. -/
def andThen (c : Checked α) (f : α → Checked β) : Checked β :=
  match c with
  | .valid a => f a
  | .invalid issues => .invalid issues

def under (p : Place) : Checked α → Checked α
  | .valid a => .valid a
  | .invalid issues => .invalid (issues.map (·.under p))

instance : Functor Checked := ⟨fun f c => map f c, fun a c => map (fun _ => a) c⟩

instance : Applicative Checked where
  pure := .valid
  seq f c := ap f (c ())

end Checked

namespace Json

variable {α : Type}

abbrev Fields := List (String × Json)

/-! ## Plain values -/

/-- Texts are Unicode here, so one with half of a surrogate pair is refused in every field.
The service does that only where a text must not be empty. Others it lets in, the texts of
documents and the entries of a configuration, and it fails where they have to be encoded
later. This is left out: no document and no configuration here holds such a text. -/
def text : Json → Checked String
  | .string s => .valid s
  | .brokenText => .refuse .brokenText .brokenText
  | j => .refuse .notText j

def nonEmptyText (j : Json) : Checked String :=
  j.text.andThen fun s => if s = "" then .refuse .emptyText j else .valid s

/-- What a double is taken for must lie inside the 64-bit integers. -/
def wordBound : Int := Nat.pow 2 63

def integer (j : Json) : Checked Int :=
  match j with
  | .int n => .valid n
  | .float x =>
    match x.toInt? with
    | some n => if -wordBound < n ∧ n < wordBound then .valid n else .refuse .tooLarge j
    | none => .refuse (if x.isFinite then .fractional else .notFinite) j
  | .bool b => .valid (if b then 1 else 0)
  | .string s =>
    match readInteger s with
    | .ok n => .valid n
    | .error .unreadable => .refuse .unreadableInteger j
    | .error .tooManyDigits => .refuse .tooLarge j
  | .brokenText => .refuse .brokenText j
  | _ => .refuse .notInteger j

def natural (j : Json) : Checked Nat :=
  j.integer.andThen fun n => if n < 0 then .refuse .negative j else .valid n.toNat

def trueWords : List String := ["1", "t", "true", "y", "yes", "on"]

def falseWords : List String := ["0", "f", "false", "n", "no", "off"]

def booleanOfWord? (s : String) : Option Bool :=
  let word := String.ofList (s.toList.map Char.toLower)
  if trueWords.contains word then some true
  else if falseWords.contains word then some false
  else none

/-- The number that stands in for a boolean, if it is a 64-bit integer. A double of
the least such integer counts as none. -/
def word? : Json → Option Int
  | .int n => if -wordBound ≤ n ∧ n < wordBound then some n else none
  | .float x => x.toInt?.filter fun n => -wordBound < n ∧ n < wordBound
  | _ => none

def boolean (j : Json) : Checked Bool :=
  match j with
  | .bool b => .valid b
  | .string s => (booleanOfWord? s).elim (.refuse .unreadableBoolean j) .valid
  | .brokenText => .refuse .brokenText j
  | _ =>
    match j.word? with
    | some 0 => .valid false
    | some 1 => .valid true
    | some _ => .refuse .unreadableBoolean j
    | none => .refuse .notBoolean j

def version (j : Json) : Checked LuaVersion :=
  match j with
  | .string s => (LuaVersion.ofName? s).elim (.refuse .unknownVersion j) .valid
  | _ => .refuse .unknownVersion j

/-! ## Compound values -/

/-- Null or a value. -/
def nullable (d : Json → Checked α) : Json → Checked (Option α)
  | .null => .valid none
  | j => (d j).map some

def itemsFrom (d : Json → Checked α) : Nat → List Json → Checked (List α)
  | _, [] => .valid []
  | i, j :: js => List.cons <$> (d j).under (.index i) <*> itemsFrom d (i + 1) js

def listOf (d : Json → Checked α) : Json → Checked (List α)
  | .array items => itemsFrom d 0 items
  | j => .refuse .notList j

/-- An object of a named sort. -/
def model (name : String) (d : Fields → Checked α) : Json → Checked α
  | .object fields => d fields
  | j => .refuse (.notObject name) j

namespace Fields

/-- A field that has to be there. What lacks it is the object as a whole. -/
def required (fields : Fields) (name : String) (d : Json → Checked α) : Checked α :=
  match fields.lookup name with
  | some j => (d j).under (.key name)
  | none => (Checked.refuse .missing (.object fields)).under (.key name)

/-- A field that may be left out. -/
def withDefault (fields : Fields) (name : String) (default : α) (d : Json → Checked α) :
    Checked α :=
  match fields.lookup name with
  | some j => (d j).under (.key name)
  | none => .valid default

end Fields

end Json

end LuaSymbols
