import LuaSymbols.Text.Basic
import LuaSymbols.Validation

/-!
# Configuration

A `Config` is one snapshot of what the index is told: where to look for modules,
which calls import, which dialect is spoken, and whether function declarations
answer definition queries. A change replaces the whole snapshot. Entries are
stripped and blank ones dropped; without a keyword the default ones hold.
-/

namespace LuaSymbols

/-- Strips the entries of a list and drops those that are blank. -/
def cleanEntries (entries : List String) : List String := (entries.map strip).filter (· ≠ "")

def defaultKeywords : List String := ["Include", "Require", "require", "dofile", "include"]

/-- A search path is a directory, or a template in which `?` stands for the module. -/
structure Config where
  searchPaths : List String := []
  includeKeywords : List String := defaultKeywords
  version : LuaVersion := .lua51
  resolveFunctions : Bool := false
  deriving DecidableEq, Repr

namespace Config

def cleanKeywords (entries : List String) : List String :=
  match cleanEntries entries with
  | [] => defaultKeywords
  | keywords => keywords

/-- The snapshot with the given entries, cleaned. -/
def clean (searchPaths includeKeywords : List String) (version : LuaVersion)
    (resolveFunctions : Bool) : Config :=
  ⟨cleanEntries searchPaths, cleanKeywords includeKeywords, version, resolveFunctions⟩

open Json.Fields (withDefault) in
def ofFields (fs : Json.Fields) : Checked Config :=
  clean <$> withDefault fs "search_paths" [] (Json.listOf Json.text) <*>
    withDefault fs "include_keywords" [] (Json.listOf Json.text) <*>
    withDefault fs "lua_version" .lua51 Json.version <*>
    withDefault fs "resolve_function_declarations" false Json.boolean

def ofJson : Json → Checked Config := Json.model "IndexConfig" ofFields

def toJson (c : Config) : Json :=
  .object [("search_paths", .strings c.searchPaths),
    ("include_keywords", .strings c.includeKeywords), ("lua_version", .string c.version.name),
    ("resolve_function_declarations", .bool c.resolveFunctions)]

end Config

end LuaSymbols
