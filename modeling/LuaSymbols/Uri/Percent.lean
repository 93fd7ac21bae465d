import LuaSymbols.Text.Utf8

/-!
# Percent escapes

`decode` reads the escapes of a text and `encode` writes them. A run of escapes
and other ASCII characters is one byte sequence and is read as UTF-8 with
replacement; a non-ASCII character stands for itself and ends the run. A percent
sign without two hexadecimal digits after it is kept.
-/

namespace LuaSymbols.Percent

def hexValue? (c : Char) : Option Nat :=
  if '0' ≤ c ∧ c ≤ '9' then some (c.toNat - '0'.toNat)
  else if 'A' ≤ c ∧ c ≤ 'F' then some (c.toNat - 'A'.toNat + 10)
  else if 'a' ≤ c ∧ c ≤ 'f' then some (c.toNat - 'a'.toNat + 10)
  else none

def hexDigit (n : Nat) : Char :=
  if n < 10 then Char.ofNat ('0'.toNat + n) else Char.ofNat ('A'.toNat + (n - 10))

/-- A byte of an ASCII run, or a character outside ASCII. -/
inductive Piece where
  | byte (b : UInt8)
  | char (c : Char)
  deriving DecidableEq, Repr

def Piece.ofChar (c : Char) : Piece :=
  if c.toNat < 0x80 then .byte (UInt8.ofNat c.toNat) else .char c

def pieces : List Char → List Piece
  | [] => []
  | '%' :: a :: b :: rest =>
    match hexValue? a, hexValue? b with
    | some x, some y => .byte (UInt8.ofNat (16 * x + y)) :: pieces rest
    | _, _ => .ofChar '%' :: pieces (a :: b :: rest)
  | c :: rest => .ofChar c :: pieces rest

def assemble (s : Utf8.State) : List Piece → List Char
  | [] => s.flush
  | .byte b :: rest => (Utf8.step s b).1 ++ assemble (Utf8.step s b).2 rest
  | .char c :: rest => s.flush ++ c :: assemble .start rest

def decode (cs : List Char) : List Char := assemble .start (pieces cs)

def encodeByte (b : UInt8) : List Char :=
  ['%', hexDigit (b.toNat / 16), hexDigit (b.toNat % 16)]

/-- Writes every character that `keep` refuses as the escapes of its bytes. -/
def encode (keep : Char → Bool) (cs : List Char) : List Char :=
  cs.flatMap fun c => if keep c then [c] else (String.utf8EncodeChar c).flatMap encodeByte

end LuaSymbols.Percent
