import LuaSymbols.Text.Basic

/-!
# Lua dialects

`LuaVersion.supports` orders the dialects by the syntax they accept. LuaJIT has
labels and `goto` like 5.2, and nothing newer.
-/

namespace LuaSymbols

inductive LuaVersion where
  | lua51
  | lua52
  | lua53
  | lua54
  | luaJit
  deriving DecidableEq, Inhabited, Repr

namespace LuaVersion

def all : List LuaVersion := [lua51, lua52, lua53, lua54, luaJit]

def name : LuaVersion → String
  | lua51 => "5.1"
  | lua52 => "5.2"
  | lua53 => "5.3"
  | lua54 => "5.4"
  | luaJit => "LuaJIT"

def ofName? (s : String) : Option LuaVersion := all.find? (·.name == s)

/-- What is said of a text that names no dialect. -/
def unknownMessage (s : String) : String := quoteText s ++ " is not a valid LuaVersion"

def level : LuaVersion → Nat
  | lua51 => 1
  | lua52 => 2
  | lua53 => 3
  | lua54 => 4
  | luaJit => 2

/-- Whether the dialect accepts syntax that `required` introduced. -/
def supports (v required : LuaVersion) : Bool := required.level ≤ v.level

end LuaVersion

end LuaSymbols
