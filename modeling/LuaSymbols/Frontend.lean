import LuaSymbols.Lua.Grammar
import LuaSymbols.Path

/-!
# Language front ends

A front end reads sources of one language and knows its files. One that lacks a
part answers a request for it with `Frontend.Unmet`.
-/

namespace LuaSymbols

structure Frontend where
  language : String
  parser : Option (String → Except Lua.Refusal Node) := none
  detector : Option (String → Bool) := none

namespace Frontend

/-- The part that a front end lacks. -/
inductive Unmet where
  | parse
  | detectLanguage
  deriving DecidableEq, Repr

def Unmet.message : Unmet → String
  | .parse => "Subclasses must implement parse method"
  | .detectLanguage => "Subclasses must implement detect_language method"

def parse (f : Frontend) (source : String) : Except Unmet (Except Lua.Refusal Node) :=
  match f.parser with
  | some p => .ok (p source)
  | none => .error .parse

def detectLanguage (f : Frontend) (path : String) : Except Unmet Bool :=
  match f.detector with
  | some d => .ok (d path)
  | none => .error .detectLanguage

/-- The front end for Lua in a dialect. -/
def lua (v : LuaVersion) : Frontend := ⟨"lua", some (Lua.load v), some Path.isLua⟩

end Frontend

end LuaSymbols
