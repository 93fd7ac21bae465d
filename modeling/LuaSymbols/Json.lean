import LuaSymbols.Binary64
import LuaSymbols.Table

/-!
# JSON values

A number with a point or an exponent is a double, every other one an integer. The
fields of an object keep the order in which their names first appeared, and every name
appears once.

Two kinds of values can be read and not be written: numbers that are not finite, and
texts that are no Unicode because half of a surrogate pair stands alone in them
(`Json.isWritable`).
-/

namespace LuaSymbols

inductive Json where
  | null
  | bool (b : Bool)
  | int (n : Int)
  | float (x : Binary64)
  | string (s : String)
  | brokenText
  | array (items : List Json)
  | object (fields : List (String × Json))
  deriving Inhabited, Repr

namespace Json

/-- The value of a field; none for a value that is no object. -/
def field? (name : String) : Json → Option Json
  | .object fields => Table.get? fields name
  | _ => none

def nat (n : Nat) : Json := .int n

def strings (items : List String) : Json := .array (items.map .string)

mutual
/-- Whether a value can be written: all its numbers are finite and all its texts are
Unicode. -/
def isWritable : Json → Bool
  | .float x => x.isFinite
  | .brokenText => false
  | .array items => areWritable items
  | .object fields => haveWritable fields
  | _ => true

def areWritable : List Json → Bool
  | [] => true
  | v :: rest => isWritable v && areWritable rest

def haveWritable : List (String × Json) → Bool
  | [] => true
  | (_, v) :: rest => isWritable v && haveWritable rest
end

end Json

end LuaSymbols
