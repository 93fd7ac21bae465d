/-!
# Doubles

A decimal with a point or an exponent stands for the double nearest to it
(`Binary64.ofDecimal`). All arithmetic is on natural numbers: a double is a mantissa
of at most 53 bits and a power of two.
-/

namespace LuaSymbols

/-- `finite negative mantissa exponent` is `mantissa * 2 ^ exponent` with its sign. -/
inductive Binary64 where
  | finite (negative : Bool) (mantissa : Nat) (exponent : Int)
  | infinite (negative : Bool)
  | notANumber
  deriving DecidableEq, Repr

namespace Binary64

def precision : Nat := 53

def minExponent : Int := -1074

def maxExponent : Int := 971

/-- `n / d` to the nearest integer; a tie goes to the even one. -/
def roundDiv (n d : Nat) : Nat :=
  if d < 2 * (n % d) ∨ (d = 2 * (n % d) ∧ n / d % 2 = 1) then n / d + 1 else n / d

/-- The quotient `n / d` times a power of a base, as numerator and denominator. -/
def scale (n d base : Nat) (e : Int) : Nat × Nat :=
  if 0 ≤ e then (n * Nat.pow base e.toNat, d) else (n, d * Nat.pow base (-e).toNat)

/-- The exponent with which `n / d` has a mantissa of full precision, or the least one
where it is too small for that. -/
def exponentOf (n d : Nat) : Int :=
  let e : Int := n.log2 - d.log2 - precision
  let (a, b) := scale n d 2 (-e)
  max (if Nat.pow 2 precision ≤ a / b then e + 1 else e) minExponent

/-- The double nearest to `n / d`. -/
def ofRatio (negative : Bool) (n d : Nat) : Binary64 :=
  let e := exponentOf n d
  let (a, b) := scale n d 2 (-e)
  let m := roundDiv a b
  if maxExponent < e ∨ (e = maxExponent ∧ m = Nat.pow 2 precision) then .infinite negative
  else .finite negative m e

/-- More than the decimal exponent of every double, with either sign. -/
def decimalReach : Int := 400

/-- The double nearest to `mantissa * 10 ^ exponent`. Numbers out of reach are settled
without their power of ten. -/
def ofDecimal (negative : Bool) (mantissa : Nat) (exponent : Int) : Binary64 :=
  if mantissa = 0 ∨ exponent + (mantissa.log2 + 1) < -decimalReach then .finite negative 0 0
  else if decimalReach < exponent then .infinite negative
  else
    let (n, d) := scale mantissa 1 10 exponent
    ofRatio negative n d

def isFinite : Binary64 → Bool
  | finite .. => true
  | _ => false

/-- The integer that a double is, if its fraction is zero. -/
def toInt? : Binary64 → Option Int
  | finite negative m e =>
    let (n, d) := scale m 1 2 e
    if n % d = 0 then some (if negative then -(n / d : Nat) else (n / d : Nat)) else none
  | _ => none

end Binary64

end LuaSymbols
