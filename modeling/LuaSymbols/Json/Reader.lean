import LuaSymbols.Json
import LuaSymbols.Text.Encoding
import LuaSymbols.Text.Integer

/-!
# Reading JSON

`Json.parse` reads one value with blanks around it, or says why it cannot. A text
that is no JSON has a position at which that shows: where a string does not end it is
that of its opening quote; where an escape is wrong, that of its backslash or of the
`u` behind it. Besides, integers have a limit on their digits and values one on their
depth. `NaN`, `Infinity` and `-Infinity` are numbers.

A reading function takes the rest of the text with its position and returns the
rest behind what it has read.
-/

namespace LuaSymbols.Json

/-- Why a text cannot be read. -/
inductive Fault where
  | malformed (position : Nat)
  | tooManyDigits
  | tooDeep
  deriving DecidableEq, Repr

/-- The unread text and the position of its first character. -/
structure Rest where
  chars : List Char
  pos : Nat

abbrev Reading (α : Type) := Except Fault (α × Rest)

/-- Nothing can be read at a position. -/
def stuck {α : Type} (position : Nat) : Reading α := .error (.malformed position)

def Rest.drop (r : Rest) (n : Nat) : Rest := ⟨r.chars.drop n, r.pos + n⟩

def isSpace (c : Char) : Bool := c == ' ' || c == '\t' || c == '\n' || c == '\r'

def Rest.skipSpace (r : Rest) : Rest := r.drop (r.chars.takeWhile isSpace).length

/-! ## Numbers -/

/-- The digits behind a point, if there is at least one. -/
def fraction : List Char → List Char
  | '.' :: cs => cs.takeWhile Char.isDigit
  | _ => []

/-- The length and the value of an exponent part; a mark without digits is none. -/
def exponent : List Char → Nat × Int
  | e :: cs =>
    if e == 'e' || e == 'E' then
      let (signLength, negative, body) := match cs with
        | '-' :: rest => (1, true, rest)
        | '+' :: rest => (1, false, rest)
        | rest => (0, false, rest)
      match body.takeWhile Char.isDigit with
      | [] => (0, 0)
      | ds => (1 + signLength + ds.length, if negative then -digitsValue ds else digitsValue ds)
    else (0, 0)
  | [] => (0, 0)

/-- How many digits an integer may have. -/
def maxDigits : Nat := 4300

/-- Reads the digits, fraction and exponent behind the sign. -/
def readUnsigned (negative : Bool) (start : Nat) (r : Rest) : Reading Json :=
  let whole := match r.chars with
    | '0' :: _ => ['0']
    | cs => cs.takeWhile Char.isDigit
  if whole.isEmpty then stuck start
  else
    let behind := r.drop whole.length
    let frac := fraction behind.chars
    let behind := if frac.isEmpty then behind else behind.drop (frac.length + 1)
    let (length, e) := exponent behind.chars
    let n := digitsValue (whole ++ frac)
    if frac.isEmpty && length = 0 then
      if maxDigits < whole.length then .error .tooManyDigits
      else .ok (.int (if negative then -(n : Int) else n), behind)
    else .ok (.float (.ofDecimal negative n (e - frac.length)), behind.drop length)

def readNumber (r : Rest) : Reading Json :=
  match r.chars with
  | '-' :: _ => readUnsigned true r.pos (r.drop 1)
  | _ => readUnsigned false r.pos r

/-! ## Strings -/

def hexDigit? (c : Char) : Option Nat :=
  if c.isDigit then some (c.toNat - '0'.toNat)
  else if 'a' ≤ c ∧ c ≤ 'f' then some (c.toNat - 'a'.toNat + 10)
  else if 'A' ≤ c ∧ c ≤ 'F' then some (c.toNat - 'A'.toNat + 10)
  else none

/-- The number that the four hexadecimal digits at the head of a text give. The
text goes on behind them: a string does not end there. -/
def hexUnit? : List Char → Option Nat
  | a :: b :: c :: d :: _ :: _ => do
    some (((← hexDigit? a) * 16 + (← hexDigit? b)) * 256 + (← hexDigit? c) * 16 + (← hexDigit? d))
  | _ => none

def simpleEscape? : Char → Option Char
  | '"' => some '"'
  | '\\' => some '\\'
  | '/' => some '/'
  | 'b' => some '\x08'
  | 'f' => some '\x0c'
  | 'n' => some '\n'
  | 'r' => some '\r'
  | 't' => some '\t'
  | _ => none

/-- The low unit that an escape behind a high unit gives. -/
def lowUnit? : List Char → Option Nat
  | '\\' :: 'u' :: cs => (hexUnit? cs).filter Encoding.isLowUnit
  | _ => none

/-- A text, and whether it is Unicode. -/
structure Text where
  value : String
  isWhole : Bool

def Text.toJson (t : Text) : Json := if t.isWhole then .string t.value else .brokenText

open Encoding in
/-- Reads the characters of a string up to its closing quote. `whole` says that no
unit has stood alone so far. -/
def readChars (start : Nat) : Nat → Rest → Bool → List Char → Reading Text
  | 0, _, _, _ => stuck start
  | fuel + 1, r, whole, done =>
    match r.chars with
    | [] => stuck start
    | '"' :: _ => .ok (⟨String.ofList done.reverse, whole⟩, r.drop 1)
    | '\\' :: 'u' :: cs =>
      match hexUnit? cs with
      | none => stuck (r.pos + 1)
      | some n =>
        match if isHighUnit n then lowUnit? (cs.drop 4) else none with
        | some low => readChars start fuel (r.drop 12) whole (joinUnits n low :: done)
        | none =>
          readChars start fuel (r.drop 6) (whole && !(isHighUnit n || isLowUnit n))
            (unitChar n :: done)
    | '\\' :: c :: _ =>
      match simpleEscape? c with
      | some e => readChars start fuel (r.drop 2) whole (e :: done)
      | none => stuck r.pos
    | ['\\'] => stuck start
    | c :: _ =>
      if c.toNat < 0x20 then stuck r.pos else readChars start fuel (r.drop 1) whole (c :: done)

/-- Reads a string whose opening quote is the first character. -/
def readString (r : Rest) : Reading Text :=
  readChars r.pos (r.chars.length + 1) (r.drop 1) true []

/-! ## Values -/

def literals : List (List Char × Json) :=
  [("null".toList, .null), ("true".toList, .bool true), ("false".toList, .bool false),
    ("NaN".toList, .float .notANumber), ("Infinity".toList, .float (.infinite false)),
    ("-Infinity".toList, .float (.infinite true))]

def readScalar (r : Rest) : Reading Json :=
  match r.chars with
  | '"' :: _ => (readString r).map fun (t, rest) => (t.toJson, rest)
  | _ =>
    match literals.find? fun (word, _) => word.isPrefixOf r.chars with
    | some (word, value) => .ok (value, r.drop word.length)
    | none => readNumber r

mutual
/-- Reads a value that has at most `depth` arrays and objects in one another. -/
def readValue : Nat → Nat → Rest → Reading Json
  | 0, _, r => stuck r.pos
  | fuel + 1, depth, r =>
    match r.chars, depth with
    | '\x7b' :: _, 0 => .error .tooDeep
    | '\x7b' :: _, depth + 1 =>
      let inner := (r.drop 1).skipSpace
      match inner.chars with
      | '\x7d' :: _ => .ok (.object [], inner.drop 1)
      | _ => readFields fuel depth inner []
    | '[' :: _, 0 => .error .tooDeep
    | '[' :: _, depth + 1 =>
      let inner := (r.drop 1).skipSpace
      match inner.chars with
      | ']' :: _ => .ok (.array [], inner.drop 1)
      | _ => readItems fuel depth inner []
    | _, _ => readScalar r

/-- Reads the items of an array from the first character of one. -/
def readItems : Nat → Nat → Rest → List Json → Reading Json
  | 0, _, r, _ => stuck r.pos
  | fuel + 1, depth, r, done =>
    match readValue fuel depth r with
    | .error e => .error e
    | .ok (item, rest) =>
      let rest := rest.skipSpace
      match rest.chars with
      | ']' :: _ => .ok (.array (item :: done).reverse, rest.drop 1)
      | ',' :: _ => readItems fuel depth (rest.drop 1).skipSpace (item :: done)
      | _ => stuck rest.pos

/-- Reads the fields of an object from the quote of a name. A field whose name is no
Unicode has no value that could be written. -/
def readFields : Nat → Nat → Rest → List (String × Json) → Reading Json
  | 0, _, r, _ => stuck r.pos
  | fuel + 1, depth, r, done =>
    match r.chars with
    | '"' :: _ =>
      match readString r with
      | .error e => .error e
      | .ok (name, rest) =>
        let rest := rest.skipSpace
        match rest.chars with
        | ':' :: _ =>
          match readValue fuel depth (rest.drop 1).skipSpace with
          | .error e => .error e
          | .ok (value, rest) =>
            let done := Table.set done name.value (if name.isWhole then value else .brokenText)
            let rest := rest.skipSpace
            match rest.chars with
            | '\x7d' :: _ => .ok (.object done, rest.drop 1)
            | ',' :: _ => readFields fuel depth (rest.drop 1).skipSpace done
            | _ => stuck rest.pos
        | _ => stuck rest.pos
    | _ => stuck r.pos
end

/-- Reads a whole text of a limited depth. -/
def parseWithin (depth : Nat) (cs : List Char) : Except Fault Json :=
  match readValue (2 * cs.length + 2) depth (Rest.mk cs 0).skipSpace with
  | .error e => .error e
  | .ok (value, rest) =>
    let rest := rest.skipSpace
    if rest.chars.isEmpty then .ok value else .error (.malformed rest.pos)

/-- Reads a whole text of any depth. -/
def parse (text : String) : Except Fault Json := parseWithin text.length text.toList

end LuaSymbols.Json
