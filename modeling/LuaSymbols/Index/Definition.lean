import LuaSymbols.Index.Refresh

/-!
# Definition queries

The name under a position is looked up in the declarations of its own file, and
where that has none, in those of every global file. Records are brought in step
before they are searched.
-/

namespace LuaSymbols

/-- Bases are equal when no base counts as the empty one. -/
def sameBase (a b : Option String) : Bool := a.getD "" == b.getD ""

namespace FileRecord

/-- The first occurrence whose range holds a position. -/
def occurrenceAt? (r : FileRecord) (line character : Int) : Option Occurrence :=
  r.identifiers.find? (·.range.contains line character)

/-- The declarations of a name in one file: locals and parameters for a plain
name, then assignments, then, if asked for, functions. -/
def definitions (r : FileRecord) (withFunctions : Bool) (o : Occurrence) : List Location :=
  (if o.base = none then
    (r.locals.filter (·.label = o.name)).map Declaration.location ++
      (r.parameters.filter (·.label = o.name)).map Declaration.location
  else []) ++
    (r.assignments.filter fun a => a.label = o.name && sameBase a.base o.base).map
      Assignment.location ++
    (if withFunctions then
      (r.functions.filter fun f => f.label = o.name && sameBase f.base o.base).map
        FunctionDeclaration.location
    else [])

end FileRecord

namespace Index

/-- The declarations of a name in the global files that have a record. -/
def globalDefinitions (d : Disk) (o : Occurrence) :
    List String → Index → Outcome (List Location)
  | [], s => .pure [] s
  | uri :: rest, s =>
    match s.get? uri with
    | none => globalDefinitions d o rest s
    | some _ =>
      (s.refresh d uri).andThen fun r s =>
        (globalDefinitions d o rest s).map (r.definitions s.config.resolveFunctions o ++ ·)

/-- The declarations of the name at a position. -/
def definition (s : Index) (d : Disk) (uri : String) (line character : Int) :
    Outcome (List Location) :=
  (s.refresh d uri).andThen fun r s =>
    match r.occurrenceAt? line character with
    | none => .pure [] s
    | some o =>
      match r.definitions s.config.resolveFunctions o with
      | [] => globalDefinitions d o s.globals s
      | found => .pure found s

end Index

end LuaSymbols
