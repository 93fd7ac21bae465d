import LuaSymbols.Disk.Glob
import LuaSymbols.Index.Refresh

/-!
# Scanning for global files

A scan indexes the Lua files that match some patterns and makes them global.
-/

namespace LuaSymbols.Index

/-- The scripts that a pattern matches, seen from a root. -/
def scripts (d : Disk) (root pattern : String) : Except Disk.AccessError (List String) :=
  (d.glob (Path.join root pattern)).map (·.filter fun p => d.isFile p && Path.isLua p)

/-- Indexes the matches of patterns in turn, as global files. A pattern that cannot be
looked up ends the scan. -/
def indexMatches (d : Disk) (root : String) : List String → Index → Outcome (List String)
  | [], s => .pure [] s
  | pattern :: rest, s =>
    match scripts d root pattern with
    | .error e => ⟨.error e, s⟩
    | .ok paths =>
      (indexAll d none true paths s).andThen fun uris s =>
        (indexMatches d root rest s).map (uris ++ ·)

/-- Indexes the matches of the patterns and adds them to the global files. The
answer lists their keys, each once. -/
def scan (s : Index) (d : Disk) (root : String) (patterns : List String) :
    Outcome (List String) :=
  (indexMatches d root patterns s).map keepFirst

end LuaSymbols.Index
