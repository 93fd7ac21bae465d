import LuaSymbols.Text.Basic

/-!
# Integers written as text

`readInteger` reads a decimal integer with white space around it. It may have a sign,
zeros in front, a fraction of zeros behind it and single underscores between its
digits. Zeros are dropped before anything else is looked at, so they may also stand in
front of a minus sign, and the zeros of a number behind a minus sign are not dropped.
-/

namespace LuaSymbols

def digitsValue (ds : List Char) : Nat := ds.foldl (fun n d => 10 * n + (d.toNat - '0'.toNat)) 0

inductive IntegerFault where
  | unreadable
  | tooManyDigits
  deriving DecidableEq, Repr

namespace IntegerText

def dropPlus? : List Char → Option (List Char)
  | '+' :: '-' :: _ => none
  | '+' :: cs => some cs
  | cs => some cs

/-- The rest of a text behind zeros, of which `last` was the last character. A number
keeps its last zero before a point and at the end of the text. -/
def afterZero? (last : Char) : List Char → Option (List Char)
  | [] => some [last]
  | c :: cs =>
    if c = '0' ∨ c = '_' then afterZero? c cs
    else if c.isDigit ∨ c = '-' then some (c :: cs)
    else if c = '.' then some (last :: c :: cs)
    else none

def dropZeros? : List Char → Option (List Char)
  | [] => none
  | c :: cs =>
    if c = '0' then afterZero? c cs
    else if c.isDigit ∨ c = '-' then some (c :: cs)
    else none

/-- Drops a fraction, which must be of zeros, at least one. -/
def dropFraction? (cs : List Char) : Option (List Char) :=
  match cs.dropWhile (· != '.') with
  | [] => some cs
  | _ :: places =>
    if places ≠ [] ∧ places.all (· == '0') then some (cs.takeWhile (· != '.')) else none

def hasDoubled (c : Char) : List Char → Bool
  | a :: b :: cs => (a == c && b == c) || hasDoubled c (b :: cs)
  | _ => false

/-- Drops underscores that stand one by one inside a text. -/
def dropUnderscores (cs : List Char) : List Char :=
  if cs.head? = some '_' ∨ cs.getLast? = some '_' ∨ hasDoubled '_' cs then cs
  else cs.filter (· != '_')

/-- The value of digits that do not start with a zero, or of a single zero. -/
def digits? (ds : List Char) : Option Nat :=
  if ds.all Char.isDigit ∧ ds ≠ [] ∧ (ds.head? ≠ some '0' ∨ ds.length = 1) then
    some (digitsValue ds)
  else none

def signed? : List Char → Option Int
  | '-' :: ds => (digits? ds).map fun n => -(n : Int)
  | ds => (digits? ds).map fun n => (n : Int)

/-- How many characters a number may have, with its sign. -/
def maxLength : Nat := 4300

/-- Whether a text starts with a number that is too long, whatever follows it. -/
def isLong (cs : List Char) : Bool :=
  let sign := if cs.head? = some '-' then 1 else 0
  let ds := (cs.drop sign).takeWhile Char.isDigit
  ds.head? ≠ some '0' && maxLength < sign + ds.length

/-- The number without what does not count. -/
def bare? (s : String) : Option (List Char) :=
  dropPlus? (trimChars isWhiteSpace s.toList) >>= dropZeros? >>= dropFraction? >>=
    fun cs => some (dropUnderscores cs)

end IntegerText

open IntegerText in
def readInteger (s : String) : Except IntegerFault Int :=
  if isLong s.toList then .error .tooManyDigits
  else
    match bare? s with
    | none => .error .unreadable
    | some cs =>
      if isLong cs then .error .tooManyDigits else (signed? cs).elim (.error .unreadable) .ok

end LuaSymbols
