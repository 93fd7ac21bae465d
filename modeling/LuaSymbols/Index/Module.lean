import LuaSymbols.Index

/-!
# Module search

Where the module that an include call names may lie. The places are, in order,
the directory of the importing file, the workspace root and the search paths;
each directory is tried with the reference as it stands and with `.lua` behind it.
-/

namespace LuaSymbols

/-- The path that a reference gives. In a dotted one every dot separates
directories. -/
def modulePath (reference : String) (dotted : Bool) : String :=
  if dotted then
    Path.normalize (String.ofList (reference.toList.map fun c => if c = '.' then '/' else c))
  else reference

/-- A module in a directory: as it stands, then with the suffix of a script. -/
def inDirectory (name dir : String) : List String :=
  [Path.join dir name, Path.join dir (name ++ ".lua")]

/-- The template with every `?` replaced. -/
def fillTemplate (template name : String) : String :=
  String.ofList (template.toList.flatMap fun c => if c = '?' then name.toList else [c])

/-- What a search path offers for a module. -/
def onSearchPath (name path : String) : List String :=
  if '?' ∈ path.toList then [fillTemplate path name] else inDirectory name path

/-- Keeps the first of equal items. -/
def keepFirst : List String → List String :=
  List.foldl (fun kept a => if a ∈ kept then kept else kept ++ [a]) []

namespace Index

/-- The directories that come before the search paths. -/
def nearRoots (s : Index) (importer : Option String) : List String :=
  match importer with
  | some uri => if uri = "" then [s.root] else [Path.directory (Uri.toPath uri), s.root]
  | none => [s.root]

/-- The paths at which a module may lie, existing or not. -/
def candidates (s : Index) (importer : Option String) (reference : String) (dotted : Bool) :
    List String :=
  let name := modulePath reference dotted
  (s.nearRoots importer).flatMap (inDirectory name) ++
    s.config.searchPaths.flatMap (onSearchPath name)

/-- The existing files of a module, absolute and each once. -/
def find (s : Index) (d : Disk) (importer : Option String) (reference : String) (dotted : Bool) :
    List String :=
  if reference = "" then []
  else
    keepFirst (((s.candidates importer reference dotted).filter d.isFile).map
      (Path.absolute d.cwd))

/-- The keys that the include calls of a walk lead to, in their order. -/
def edges (s : Index) (d : Disk) (key : String) (t : Trace) : List String :=
  t.includes.flatMap fun (reference, dotted) =>
    (s.find d (some key) reference dotted).map (Uri.ofPath d.cwd)

end Index

end LuaSymbols
