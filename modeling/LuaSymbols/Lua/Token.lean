import LuaSymbols.Lua.Gap
import LuaSymbols.Tree

/-!
# Lua tokens

`Token.next?` reads one token. Where it stands decides how the text is cut
(`Context`): behind an operand `...5` is `..` and `.5`, before one it is `...` and `5`.
Which words are keywords depends on where they stand too, so every word is one kind
of token here and the grammar decides. Each reading function says how many characters
of the head of a text belong to what it looks for; the longest reading wins.
-/

namespace LuaSymbols.Lua

/-- Where a token is read. -/
inductive Context where
  /-- At the head of a source. -/
  | start
  /-- Where neither an operand nor the arguments of a call can stand. -/
  | plain
  /-- In front of an operand. -/
  | operand
  /-- Behind an expression that can be called. -/
  | callee
  /-- In front of a parameter. -/
  | parameter
  /-- Behind the name in an attribute, where `>` follows. -/
  | angle
  deriving DecidableEq, Repr

/-- Whether a string can stand in a context. -/
def Context.admitsString : Context → Bool
  | operand | callee => true
  | _ => false

/-- A `string` has the raw text between its delimiters, if there is any, and the span
of that text. `finish` stands behind the last token. -/
inductive Token.Shape where
  | word
  | number
  | string (content : Option (String × Span))
  | symbol
  | finish
  deriving DecidableEq, Repr

structure Token where
  shape : Token.Shape
  text : String
  span : Span
  deriving DecidableEq, Repr

namespace Token

/-! ## Words -/

/-- Everything above the space but quotes, `#`, operators, brackets and the
control characters from U+007F on. -/
def isWordChar (c : Char) : Bool :=
  let n := c.toNat
  0x20 < n && !(n == 0x22 || n == 0x23 || (0x25 ≤ n && n ≤ 0x2F) || (0x3A ≤ n && n ≤ 0x3E) ||
    (0x5B ≤ n && n ≤ 0x5E) || (0x7B ≤ n && n ≤ 0x9F))

def wordLength : List Char → Nat
  | c :: cs => if isWordChar c && !c.isDigit then 1 + runLength isWordChar cs else 0
  | [] => 0

def isHexDigit (c : Char) : Bool := c.isDigit || ('a' ≤ c && c ≤ 'f') || ('A' ≤ c && c ≤ 'F')

/-! ## Numbers -/

/-- The length of an exponent part; a mark without digits behind it is none. -/
def exponentLength (isMark : Char → Bool) : List Char → Nat
  | e :: cs =>
    if isMark e then
      let sign := match cs with
        | '+' :: _ | '-' :: _ => 1
        | _ => 0
      match runLength Char.isDigit (cs.drop sign) with
      | 0 => 0
      | n => 1 + sign + n
    else 0
  | [] => 0

def imaginaryLength : List Char → Nat
  | c :: _ => if c == 'i' || c == 'I' then 1 else 0
  | [] => 0

/-- The length of the mark of a 64-bit integer: `LL` or `ULL` in any case. -/
def wideLength (cs : List Char) : Nat :=
  match (cs.take 3).map Char.toLower with
  | ['u', 'l', 'l'] => 3
  | 'l' :: 'l' :: _ => 2
  | _ => 0

/-- The length of digits with point, exponent and suffix. Zero means no number. -/
def numeralLength (isDigit isMark : Char → Bool) (cs : List Char) : Nat :=
  let whole := runLength isDigit cs
  let dotted := match cs.drop whole with
    | '.' :: rest =>
      let places := runLength isDigit rest
      if whole = 0 ∧ places = 0 then 0 else 1 + places
    | _ => 0
  if whole + dotted = 0 then 0
  else
    let e := exponentLength isMark (cs.drop (whole + dotted))
    let body := whole + dotted + e
    let wide := if dotted + e = 0 then wideLength (cs.drop body) else 0
    if 0 < wide then body + wide else body + imaginaryLength (cs.drop body)

def isBit (c : Char) : Bool := c == '0' || c == '1'

/-- The length of the binary digits behind `0b` with their suffix. -/
def binaryLength (cs : List Char) : Nat :=
  match runLength isBit cs with
  | 0 => 0
  | n =>
    match wideLength (cs.drop n) with
    | 0 => n + imaginaryLength (cs.drop n)
    | wide => n + wide

def decimalLength (cs : List Char) : Nat :=
  numeralLength Char.isDigit (fun c => c == 'e' || c == 'E') cs

def numberLength : List Char → Nat
  | '0' :: x :: cs =>
    let based :=
      if x == 'x' || x == 'X' then
        numeralLength isHexDigit (fun c => c == 'p' || c == 'P') cs
      else if x == 'b' || x == 'B' then binaryLength cs
      else 0
    if 0 < based then 2 + based else decimalLength ('0' :: x :: cs)
  | cs => decimalLength cs

/-! ## Quoted strings -/

/-- The length of what an escape has behind its backslash. -/
def escapeLength? : List Char → Option Nat
  | 'x' :: a :: b :: _ => if isHexDigit a && isHexDigit b then some 3 else none
  | 'u' :: '\x7b' :: cs =>
    let digits := runLength isHexDigit cs
    match cs.drop digits with
    | '\x7d' :: _ => if digits = 0 then none else some (digits + 3)
    | _ => none
  | 'z' :: cs => some (1 + runLength isSpace cs)
  | c :: cs =>
    if c.isDigit then some (1 + runLength Char.isDigit (cs.take 2))
    else if c ∈ ['a', 'b', 'f', 'n', 'r', 't', 'v', '\\', '"', '\x27', '\n'] then some 1
    else none
  | [] => none

def isQuotedChar (quote c : Char) : Bool := c != quote && c != '\\' && c != '\x00'

/-- The length of the piece of a quoted string at the head of a text: an escape, or
characters that stand for themselves. -/
def pieceLength? (quote : Char) : List Char → Option Nat
  | '\\' :: cs => (escapeLength? cs).map (· + 1)
  | cs => some (runLength (isQuotedChar quote) cs)

/-- Where a quoted string closes, and where its content starts and stops. Comments in
long brackets before a piece are no part of the content, but those inside it are.
`pos` is the place of the head of the text, `content` what has been read before. -/
def closeQuote? (quote : Char) : Nat → Nat → Option (Nat × Nat) → List Char →
    Option (Nat × Option (Nat × Nat))
  | 0, _, _, _ => none
  | fuel + 1, pos, content, cs =>
    match blockComment? false cs with
    | none => none
    | some 0 =>
      if cs.head? = some quote then some (pos, content)
      else
        match pieceLength? quote cs with
        | none | some 0 => none
        | some n =>
          closeQuote? quote fuel (pos + n) (some (content.elim pos Prod.fst, pos + n)) (cs.drop n)
    | some n => closeQuote? quote fuel (pos + n) content (cs.drop n)

/-! ## Symbols -/

/-- The symbols of two characters or one. Longer ones stand before those that they
begin with. -/
def symbols : List String :=
  ["..", "==", "~=", "<=", ">=", "<<", ">>", "//", "::", "+", "-", "*", "/", "%", "^", "#", "&",
    "~", "|", "<", ">", "=", "(", ")", "\x7b", "\x7d", "[", "]", ";", ":", ",", "."]

def symbolsIn : Context → List String
  | .operand | .parameter => "..." :: symbols
  | .angle => [">"]
  | _ => symbols

def symbol? (c : Context) (cs : List Char) : Option String :=
  (symbolsIn c).find? (·.toList.isPrefixOf cs)

/-! ## Reading -/

def advance (p : Point) (c : Char) : Point :=
  if c = '\n' then ⟨p.row + 1, 0⟩ else ⟨p.row, p.column + c.utf8Size⟩

/-- The unread text and the point of its first character. `size` is a bound on its
length. -/
structure Cursor where
  chars : List Char
  point : Point
  size : Nat

def Cursor.drop (s : Cursor) (n : Nat) : Cursor :=
  { s with chars := s.chars.drop n, point := (s.chars.take n).foldl advance s.point }

/-- The text from one place to another, with its span. -/
def Cursor.piece (s : Cursor) (start stop : Nat) : String × Span :=
  (String.ofList ((s.chars.drop start).take (stop - start)),
    ⟨(s.drop start).point, (s.drop stop).point⟩)

def startsString : List Char → Bool
  | '"' :: _ => true
  | '\x27' :: _ => true
  | cs => (opening? cs).isSome

/-- Reads a string, with its length. -/
def string? (s : Cursor) : Option (Shape × Nat) :=
  match s.chars with
  | '"' :: rest => quoted '"' rest
  | '\x27' :: rest => quoted '\x27' rest
  | cs =>
    match opening? cs with
    | none => none
    | some (l, n) =>
      (longText? l (cs.drop n)).map fun (text, close) =>
        (.string (some (s.piece n (n + text))), n + text + close)
where
  quoted (quote : Char) (rest : List Char) : Option (Shape × Nat) :=
    (closeQuote? quote (s.size + 1) 1 none rest).map fun (close, content) =>
      (.string (content.map fun (start, stop) => s.piece start stop), close + 1)

/-- Reads the token at the head of a text that has no gap there, with its length. -/
def read? (c : Context) (s : Cursor) : Option (Shape × Nat) :=
  match wordLength s.chars with
  | 0 =>
    match if c = .operand then numberLength s.chars else 0 with
    | 0 =>
      if c.admitsString && startsString s.chars then string? s
      else (symbol? c s.chars).map fun text => (.symbol, text.length)
    | n => some (.number, n)
  | n => some (.word, n)

/-- Reads the next token in a context. -/
def next? (c : Context) (s : Cursor) : Option (Token × Cursor) :=
  match gap? (c = .start) c.admitsString (s.size + 1) s.chars with
  | none => none
  | some n =>
    let s := s.drop n
    if s.chars.isEmpty then some (⟨.finish, "", ⟨s.point, s.point⟩⟩, s)
    else
      (read? c s).map fun (shape, n) =>
        let rest := s.drop n
        (⟨shape, String.ofList (s.chars.take n), ⟨s.point, rest.point⟩⟩, rest)

/-- The head of a source. A byte order mark is skipped there. -/
def Cursor.ofText (text : String) : Cursor :=
  let cs := text.toList
  let s : Cursor := ⟨cs, ⟨0, 0⟩, cs.length⟩
  if cs.head? = some '\uFEFF' then s.drop 1 else s

/-! ## Leaves -/

/-- The token as a named leaf. -/
def leaf (t : Token) (kind : Kind) : Node := .mk { kind := kind, text := t.text, span := t.span } []

/-- The token as an unnamed leaf of its own kind. -/
def mark (t : Token) : Node :=
  .mk { kind := .other t.text, named := false, text := t.text, span := t.span } []

def contentLeaf (content : String × Span) : Node :=
  .mk { kind := .stringContent, text := content.1, span := content.2 } []

/-- The node of a string. A quoted string without content has no content node. -/
def stringNode? (t : Token) : Option Node :=
  match t.shape with
  | .string content => some (.mk (t.leaf .string).label (content.toList.map contentLeaf))
  | _ => none

end Token

end LuaSymbols.Lua
