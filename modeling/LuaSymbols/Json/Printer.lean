import LuaSymbols.Json

/-!
# Writing JSON

`Json.render` writes a value on one line. Text stays as it is but for quotes,
backslashes and control characters.
-/

namespace LuaSymbols.Json

def hexChar (n : Nat) : Char := (Nat.toDigits 16 n).getLastD '0'

def escapeChar (c : Char) : List Char :=
  if c = '"' then ['\\', '"']
  else if c = '\\' then ['\\', '\\']
  else if c.toNat < 0x20 ∨ c.toNat = 0x7F then
    ['\\', 'u', '0', '0', hexChar (c.toNat / 16), hexChar (c.toNat % 16)]
  else [c]

def quoted (s : String) : String := String.ofList ('"' :: s.toList.flatMap escapeChar ++ ['"'])

/-- A double as a decimal without rounding. -/
def decimal : Binary64 → String
  | .notANumber => "NaN"
  | .infinite negative => if negative then "-Infinity" else "Infinity"
  | .finite negative m e =>
    let sign := if negative then "-" else ""
    if 0 ≤ e then sign ++ toString (m * Nat.pow 2 e.toNat) ++ ".0"
    else sign ++ toString (m * Nat.pow 5 (-e).toNat) ++ "e" ++ toString e

mutual
def render : Json → String
  | .null => "null"
  | .bool true => "true"
  | .bool false => "false"
  | .int n => toString n
  | .float x => decimal x
  | .string s => quoted s
  | .brokenText => quoted "\uFFFD"
  | .array items => "[" ++ ",".intercalate (renderItems items) ++ "]"
  | .object fields => "\x7b" ++ ",".intercalate (renderFields fields) ++ "\x7d"

def renderItems : List Json → List String
  | [] => []
  | v :: rest => render v :: renderItems rest

def renderFields : List (String × Json) → List String
  | [] => []
  | (name, v) :: rest => (quoted name ++ ":" ++ render v) :: renderFields rest
end

end LuaSymbols.Json
