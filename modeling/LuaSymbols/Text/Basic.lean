import LuaSymbols.Text.Printable

/-!
# Cutting, trimming and quoting text

`pieces sep` cuts a text at every occurrence of `sep`, found from the left and
never overlapping; `k` occurrences give `k + 1` pieces. `strip` removes the blanks around
a setting or a number. `quoteText` shows a text between quotes on one line, as messages
have it: the quotes are single ones, or double ones where the text holds a single and no
double one.
-/

namespace LuaSymbols

/-! ## Cutting at a separator -/

/-- Puts a character in front of the first piece. -/
def consFirst (c : Char) : List (List Char) → List (List Char)
  | [] => [[c]]
  | w :: ws => (c :: w) :: ws

/-- `skip` characters of a separator found before are still to be passed over. -/
def piecesFrom (sep : List Char) : Nat → List Char → List (List Char)
  | _, [] => [[]]
  | skip + 1, _ :: cs => piecesFrom sep skip cs
  | 0, c :: cs =>
    if sep.isPrefixOf (c :: cs) then [] :: piecesFrom sep (sep.length - 1) cs
    else consFirst c (piecesFrom sep 0 cs)

def pieces (sep : List Char) (cs : List Char) : List (List Char) := piecesFrom sep 0 cs

/-! ## Blanks -/

/-- The characters with the Unicode property White_Space. -/
def isWhiteSpace (c : Char) : Bool :=
  let n := c.toNat
  (0x09 ≤ n && n ≤ 0x0D) || n == 0x20 || n == 0x85 || n == 0xA0 || n == 0x1680 ||
    (0x2000 ≤ n && n ≤ 0x200A) || n == 0x2028 || n == 0x2029 || n == 0x202F || n == 0x205F ||
    n == 0x3000

/-- White space and the four information separators, U+001C to U+001F. -/
def isBlank (c : Char) : Bool := isWhiteSpace c || (0x1C ≤ c.toNat && c.toNat ≤ 0x1F)

/-- Removes the characters of a class from both ends. -/
def trimChars (p : Char → Bool) (cs : List Char) : List Char :=
  ((cs.dropWhile p).reverse.dropWhile p).reverse

/-- Removes the blanks at both ends. -/
def strip (s : String) : String := String.ofList (trimChars isBlank s.toList)

/-! ## Quoted text in messages -/

def hexDigits (width n : Nat) : List Char :=
  let ds := Nat.toDigits 16 n
  List.replicate (width - ds.length) '0' ++ ds

/-- The escape of a character by its number, as short as that allows. -/
def escapeCode (n : Nat) : List Char :=
  if n < 0x100 then '\\' :: 'x' :: hexDigits 2 n
  else if n < 0x10000 then '\\' :: 'u' :: hexDigits 4 n
  else '\\' :: 'U' :: hexDigits 8 n

def showChar (quote c : Char) : List Char :=
  if c = quote ∨ c = '\\' then ['\\', c]
  else if c = '\n' then ['\\', 'n']
  else if c = '\r' then ['\\', 'r']
  else if c = '\t' then ['\\', 't']
  else if isPrintable c then [c]
  else escapeCode c.toNat

def quoteText (s : String) : String :=
  let cs := s.toList
  let quote := if '\x27' ∈ cs ∧ '"' ∉ cs then '"' else '\x27'
  String.ofList (quote :: cs.flatMap (showChar quote) ++ [quote])

end LuaSymbols
