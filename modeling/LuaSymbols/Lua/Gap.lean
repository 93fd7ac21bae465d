import LuaSymbols.Text.Basic

/-!
# Between Lua tokens

What may stand between two tokens: spaces, comments and, at the head of a source,
a line that starts with `#`. Each function says how many characters of the head of
a text belong to what it looks for; where it can fail, `none` means that a comment
does not end.

A comment in long brackets is looked for first, behind any white space at which a
line can break (`isBreakingSpace`); other gaps have spaces of ASCII alone
(`isSpace`). Where a long string could stand, an opening bracket that starts none is
passed over in front of such a comment. Two dashes start a comment that goes to the
end of its line, but comments in long brackets right behind the dashes come first,
and those may span lines.
-/

namespace LuaSymbols.Lua

/-! ## Characters -/

def isSpace (c : Char) : Bool := c == ' ' || (0x09 ≤ c.toNat && c.toNat ≤ 0x0D)

/-- White space without the no-break spaces and U+0085. -/
def isBreakingSpace (c : Char) : Bool :=
  isWhiteSpace c && c ∉ ['\x85', '\xA0', '\u2007', '\u202F']

def runLength (p : Char → Bool) (cs : List Char) : Nat := (cs.takeWhile p).length

/-- The characters of a line. A NUL is none of them. -/
def isLineChar (c : Char) : Bool := c != '\n' && c != '\r' && c != '\x00'

/-! ## Long brackets -/

/-- The level of a long bracket with that many equals signs; it is kept in a byte. -/
def level (signs : Nat) : Nat := signs % 256

/-- The level and the length of an opening: a bracket, equals signs and a bracket. -/
def opening? : List Char → Option (Nat × Nat)
  | '[' :: cs =>
    let signs := runLength (· == '=') cs
    match cs.drop signs with
    | '[' :: _ => some (level signs, signs + 2)
    | _ => none
  | _ => none

/-- The length of a closing of a level. -/
def closing? (l : Nat) : List Char → Option Nat
  | ']' :: cs =>
    let signs := runLength (· == '=') cs
    match cs.drop signs with
    | ']' :: _ => if level signs = l then some (signs + 2) else none
    | _ => none
  | _ => none

/-- The length of the text before the first closing of a level, and the length of
the closing. A NUL ends the search. -/
def longText? (l : Nat) : List Char → Option (Nat × Nat)
  | [] => none
  | c :: cs =>
    if c = '\x00' then none
    else
      match closing? l (c :: cs) with
      | some n => some (0, n)
      | none => (longText? l cs).map fun (n, close) => (n + 1, close)

/-! ## Comments in long brackets -/

/-- The level and the length of two dashes with an opening behind them. -/
def commentOpening? : List Char → Option (Nat × Nat)
  | '-' :: '-' :: cs => (opening? cs).map fun (l, n) => (l, n + 2)
  | _ => none

/-- The length of a bracket with equals signs behind it. -/
def bracketLength : List Char → Nat
  | '[' :: cs => 1 + runLength (· == '=') cs
  | _ => 0

/-- The level and the length of what opens a comment in long brackets, with the
white space before it. `admitsString` says that a long string could stand here. -/
def blockOpening? (admitsString : Bool) (cs : List Char) : Option (Nat × Nat) :=
  let space := runLength isBreakingSpace cs
  let stray := if admitsString then bracketLength (cs.drop space) else 0
  (commentOpening? (cs.drop (space + stray))).map fun (l, n) => (l, space + stray + n)

/-- The length of a comment in long brackets with the white space before it, zero
where there is none. -/
def blockComment? (admitsString : Bool) (cs : List Char) : Option Nat :=
  match blockOpening? admitsString cs with
  | none => some 0
  | some (l, n) => (longText? l (cs.drop n)).map fun (text, close) => n + text + close

/-! ## Comments to the end of a line -/

/-- Whether two dashes end the line. They open a comment inside the comment. -/
def dashesEndLine : List Char → Bool
  | '-' :: '-' :: cs => !(cs.head?.any isLineChar)
  | _ => false

/-- The length of what follows the dashes of a comment, with `depth` more comments
open around it. Each of them ends at the end of a line; the dashes that open one
inside another stand at the end of a line, and what they open goes on behind it only
with comments in long brackets. -/
def lineComment? : Nat → Nat → List Char → Option Nat
  | 0, _, _ => none
  | fuel + 1, depth, cs =>
    match blockComment? false cs with
    | none => none
    | some 0 =>
      if dashesEndLine cs then (lineComment? fuel (depth + 1) (cs.drop 2)).map (· + 2)
      else
        let n := runLength isLineChar cs
        match depth with
        | 0 => some n
        | depth + 1 => (lineComment? fuel depth (cs.drop n)).map (· + n)
    | some n => (lineComment? fuel depth (cs.drop n)).map (· + n)

/-! ## Gaps -/

/-- The length of the gap at the head of a text. `first` says that the line which
starts with `#` may still come. The gap before a long string ends with white space of
any kind. -/
def gap? (first admitsString : Bool) : Nat → List Char → Option Nat
  | 0, _ => none
  | fuel + 1, cs =>
    let breaking := runLength isBreakingSpace cs
    if admitsString && (opening? (cs.drop breaking)).isSome then some breaking
    else
      match blockComment? admitsString cs with
      | none => none
      | some 0 =>
        let space := runLength isSpace cs
        match cs.drop space with
        | '-' :: '-' :: rest =>
          match lineComment? (2 * fuel) 0 rest with
          | none => none
          | some n => (gap? first admitsString fuel (rest.drop n)).map (· + (space + 2 + n))
        | '#' :: rest =>
          if first then
            let n := runLength (fun c => c != '\n' && c != '\x00') rest
            (gap? false admitsString fuel (rest.drop n)).map (· + (space + 1 + n))
          else some space
        | _ => some space
      | some n => (gap? first admitsString fuel (cs.drop n)).map (· + n)

end LuaSymbols.Lua
