/-!
# UTF-8 with replacement

`decode` reads any bytes as text. A byte that starts nothing, and each longest
well-formed beginning of a broken sequence, becomes one U+FFFD. The decoder is a
machine: `State` says what the sequence under way still owes, `step` reads one
byte, `State.flush` closes a sequence that the input leaves open.
-/

namespace LuaSymbols.Utf8

/-- Stands for bytes that encode nothing. -/
def replacement : Char := '\uFFFD'

/-- `inside more lo hi code`: the next byte must lie in `lo..hi`, `more` further
continuation bytes follow it, and `code` holds the bits read so far. -/
inductive State where
  | start
  | inside (more : Nat) (lo hi : UInt8) (code : Nat)
  deriving DecidableEq, Repr

/-- What the end of the input, or a foreign character, makes of the state. -/
def State.flush : State → List Char
  | .start => []
  | .inside .. => [replacement]

/-- Reads a byte between characters. The narrowed ranges after E0, ED, F0 and F4
exclude overlong forms, surrogates and numbers above U+10FFFF. -/
def lead (b : UInt8) : List Char × State :=
  if b < 0x80 then ([Char.ofNat b.toNat], .start)
  else if b < 0xC2 then ([replacement], .start)
  else if b < 0xE0 then ([], .inside 0 0x80 0xBF (b.toNat - 0xC0))
  else if b = 0xE0 then ([], .inside 1 0xA0 0xBF 0)
  else if b = 0xED then ([], .inside 1 0x80 0x9F 0xD)
  else if b < 0xF0 then ([], .inside 1 0x80 0xBF (b.toNat - 0xE0))
  else if b = 0xF0 then ([], .inside 2 0x90 0xBF 0)
  else if b < 0xF4 then ([], .inside 2 0x80 0xBF (b.toNat - 0xF0))
  else if b = 0xF4 then ([], .inside 2 0x80 0x8F 4)
  else ([replacement], .start)

def step : State → UInt8 → List Char × State
  | .start, b => lead b
  | .inside more lo hi code, b =>
    if lo ≤ b ∧ b ≤ hi then
      let code := code * 64 + (b.toNat - 0x80)
      match more with
      | 0 => ([Char.ofNat code], .start)
      | more + 1 => ([], .inside more 0x80 0xBF code)
    else
      (replacement :: (lead b).1, (lead b).2)

def decodeFrom (s : State) : List UInt8 → List Char
  | [] => s.flush
  | b :: bs => (step s b).1 ++ decodeFrom (step s b).2 bs

def decode (bytes : List UInt8) : List Char := decodeFrom .start bytes

/-- Adds to `n` how many characters the first `k` bytes decode to. It makes none of
them, so a long line costs no memory. -/
def countFrom (n : Nat) : Nat → State → List UInt8 → Nat
  | 0, s, _ => n + s.flush.length
  | _ + 1, s, [] => n + s.flush.length
  | k + 1, .start, b :: bs =>
    if b < 0x80 then countFrom (n + 1) k .start bs
    else countFrom (n + (lead b).1.length) k (lead b).2 bs
  | k + 1, s@(.inside ..), b :: bs => countFrom (n + (step s b).1.length) k (step s b).2 bs

/-- How many characters the first `k` bytes decode to. -/
def count (k : Nat) (bytes : List UInt8) : Nat := countFrom 0 k .start bytes

theorem countFrom_eq (n k : Nat) (s : State) (bytes : List UInt8) :
    countFrom n k s bytes = n + (decodeFrom s (bytes.take k)).length := by
  induction k generalizing n s bytes with
  | zero => cases s <;> simp [countFrom, decodeFrom]
  | succ k ih =>
    cases bytes with
    | nil => cases s <;> simp [countFrom, decodeFrom]
    | cons b bs =>
      cases s with
      | start =>
        by_cases h : b < 0x80 <;>
          simp [countFrom, decodeFrom, step, lead, h, ih, Nat.add_assoc, Nat.add_comm 1]
      | inside more lo hi code => simp [countFrom, decodeFrom, ih, Nat.add_assoc]

theorem count_eq (k : Nat) (bytes : List UInt8) :
    count k bytes = (decode (bytes.take k)).length := by
  simp [count, decode, countFrom_eq]

def encode (text : List Char) : List UInt8 := text.flatMap String.utf8EncodeChar

end LuaSymbols.Utf8
