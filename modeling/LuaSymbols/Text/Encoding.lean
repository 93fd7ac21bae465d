import LuaSymbols.Text.Utf8

/-!
# Encodings of a text

A sender of JSON may use UTF-8, UTF-16 or UTF-32. The text starts with ASCII
characters, so the zeros among its first four bytes tell which it is.
-/

namespace LuaSymbols

inductive Encoding where
  | utf8
  | utf16 (bigEndian : Bool)
  | utf32 (bigEndian : Bool)
  deriving DecidableEq, Repr

namespace Encoding

def ofBytes : List UInt8 → Encoding
  | [a, b] => if a = 0 then .utf16 true else if b = 0 then .utf16 false else .utf8
  | a :: b :: c :: d :: _ =>
    if a = 0 then if b = 0 then .utf32 true else .utf16 true
    else if b = 0 then if c = 0 ∧ d = 0 then .utf32 false else .utf16 false
    else .utf8
  | _ => .utf8

def pairValue (bigEndian : Bool) (a b : UInt8) : Nat :=
  if bigEndian then a.toNat * 256 + b.toNat else b.toNat * 256 + a.toNat

/-- The numbers that pairs of bytes give; none if a byte is left over. -/
def pairs? (bigEndian : Bool) : List UInt8 → Option (List Nat)
  | [] => some []
  | [_] => none
  | a :: b :: rest => (pairs? bigEndian rest).map (pairValue bigEndian a b :: ·)

/-- The numbers that groups of four bytes give; none if bytes are left over. -/
def quads? (bigEndian : Bool) : List UInt8 → Option (List Nat)
  | [] => some []
  | a :: b :: c :: d :: rest =>
    let x := pairValue bigEndian a b
    let y := pairValue bigEndian c d
    (quads? bigEndian rest).map ((if bigEndian then x * 0x10000 + y else y * 0x10000 + x) :: ·)
  | _ => none

def isHighUnit (n : Nat) : Bool := 0xD800 ≤ n && n < 0xDC00

def isLowUnit (n : Nat) : Bool := 0xDC00 ≤ n && n < 0xE000

/-- The character of a surrogate pair. -/
def joinUnits (high low : Nat) : Char :=
  Char.ofNat (0x10000 + (high - 0xD800) * 0x400 + (low - 0xDC00))

/-- The character of a number; half of a surrogate pair becomes U+FFFD. -/
def unitChar (n : Nat) : Char :=
  if isHighUnit n || isLowUnit n then Utf8.replacement else Char.ofNat n

def ofUnits : List Nat → List Char
  | [] => []
  | [n] => [unitChar n]
  | a :: b :: rest =>
    if isHighUnit a && isLowUnit b then joinUnits a b :: ofUnits rest
    else unitChar a :: ofUnits (b :: rest)

def ofScalars? (ns : List Nat) : Option (List Char) :=
  if ns.all (· < 0x110000) then some (ns.map unitChar) else none

def dropMark : List Char → List Char
  | '\uFEFF' :: cs => cs
  | cs => cs

/-- The text of some bytes, if they are one. A byte order mark may precede UTF-8. -/
def decode? (bytes : List UInt8) : Option (List Char) :=
  match ofBytes bytes with
  | .utf8 => some (dropMark (Utf8.decode bytes))
  | .utf16 bigEndian => (pairs? bigEndian bytes).map ofUnits
  | .utf32 bigEndian => (quads? bigEndian bytes).bind ofScalars?

end Encoding

end LuaSymbols
