import LuaSymbols.Path
import LuaSymbols.Text.Utf8

/-!
# Disks

A disk is a finite set of files and directories, known by the names on the way
from the root. A path is followed name by name: every name but the last must lead
to a directory, and `..` goes up from where the path has led. Symbolic links and special
files are left out.
-/

namespace LuaSymbols

namespace Disk

inductive Entry where
  | file (bytes : List UInt8)
  | directory
  deriving DecidableEq, Repr

/-- Why a file cannot be read. -/
inductive AccessError where
  | notFound
  | isDirectory
  | notDirectory
  | nameTooLong
  | embeddedNul
  deriving DecidableEq, Repr

/-- The names from the root to an entry. -/
abbrev Spot := List (List Char)

end Disk

/-- `cwd` is the working directory. It is known by an absolute path without a NUL. -/
structure Disk where
  cwd : String
  entries : List (Disk.Spot × Disk.Entry)
  rooted : Path.isAbsoluteChars cwd.toList = true
  whole : '\x00' ∉ cwd.toList
  deriving Repr

namespace Disk

/-- The names of a lexically normal path. -/
def spotOf (path : List Char) : Spot := Path.keptParts path

def entry? (d : Disk) (spot : Spot) : Option Entry :=
  if spot = [] then some .directory else d.entries.lookup spot

/-! ## Following a path -/

def maxName : Nat := 255

def maxPath : Nat := 4096

/-- Goes from a place by one name. -/
def step (d : Disk) (here : Spot) (name : List Char) : Except AccessError Spot :=
  match d.entry? here with
  | none => .error .notFound
  | some (.file _) => .error .notDirectory
  | some .directory =>
    if name = [] ∨ name = ['.'] then .ok here
    else if name = Path.parent then .ok here.dropLast
    else if maxName < (Utf8.encode name).length then .error .nameTooLong
    else .ok (here ++ [name])

def follow (d : Disk) : Spot → List (List Char) → Except AccessError Spot
  | here, [] => .ok here
  | here, name :: rest =>
    match d.step here name with
    | .ok next => d.follow next rest
    | .error e => .error e

/-- Where a path leads that holds no NUL. -/
def locate (d : Disk) (p : List Char) : Except AccessError Spot :=
  if p = [] then .error .notFound
  else if maxPath ≤ (Utf8.encode p).length then .error .nameTooLong
  else
    d.follow (if Path.isAbsoluteChars p then [] else spotOf d.cwd.toList) (p.splitOn '/')

def stat (d : Disk) (p : List Char) : Except AccessError Entry :=
  if '\x00' ∈ p then .error .embeddedNul
  else
    match d.locate p with
    | .error e => .error e
    | .ok spot =>
      match d.entry? spot with
      | some e => .ok e
      | none => .error .notFound

def readBytes (d : Disk) (path : String) : Except AccessError (List UInt8) :=
  match d.stat path.toList with
  | .ok (.file bytes) => .ok bytes
  | .ok .directory => .error .isDirectory
  | .error e => .error e

def isFile (d : Disk) (path : String) : Bool :=
  match d.stat path.toList with
  | .ok (.file _) => true
  | _ => false

def isDirectory (d : Disk) (p : List Char) : Bool :=
  match d.stat p with
  | .ok .directory => true
  | _ => false

def exists? (d : Disk) (p : List Char) : Bool :=
  match d.stat p with
  | .ok _ => true
  | .error _ => false

/-! ## Text files -/

/-- Line ends of either old style become line feeds. -/
def unifyLines : List Char → List Char
  | [] => []
  | '\r' :: '\n' :: cs => '\n' :: unifyLines cs
  | '\r' :: cs => '\n' :: unifyLines cs
  | c :: cs => c :: unifyLines cs

def readText (d : Disk) (path : String) : Except AccessError String :=
  match d.readBytes path with
  | .ok bytes => .ok (String.ofList (unifyLines (Utf8.decode bytes)))
  | .error e => .error e

/-! ## Changes -/

def put (d : Disk) (spot : Spot) (e : Entry) : Disk :=
  { d with entries := d.entries.filter (·.1 ≠ spot) ++ [(spot, e)] }

/-- Makes a directory where nothing is. -/
def makeDirectory (d : Disk) (spot : Spot) : Disk :=
  if (d.entry? spot).isSome then d else d.put spot .directory

/-- Makes the directories above a spot. -/
def makeParents (d : Disk) (spot : Spot) : Disk :=
  ((List.range spot.length).map spot.take).foldl makeDirectory d

/-- Writes a file, or makes a directory, at a path seen from the working directory. -/
def write (d : Disk) (path : String) (e : Entry) : Disk :=
  let spot := spotOf (Path.absoluteChars d.cwd.toList path.toList)
  match e with
  | .file _ => (d.makeParents spot).put spot e
  | .directory => (d.makeParents spot).makeDirectory spot

/-- Removes a path with all below it. -/
def remove (d : Disk) (path : String) : Disk :=
  let spot := spotOf (Path.absoluteChars d.cwd.toList path.toList)
  { d with entries := d.entries.filter fun (s, _) => !spot.isPrefixOf s }

/-- The path of a working directory, seen from the root and cut at a NUL. -/
def rootPath (cwd : String) : String :=
  Path.absolute "/" (String.ofList (cwd.toList.takeWhile (· ≠ '\x00')))

theorem nul_not_mem_rootPath (cwd : String) : '\x00' ∉ (rootPath cwd).toList := by
  intro h
  rw [rootPath, Path.toList_absolute] at h
  rcases Path.mem_of_mem_absoluteChars (by decide) (by decide) h with h | h
  · simp at h
  · rw [String.toList_ofList] at h
    simpa using List.all_eq_true.1 List.all_takeWhile _ h

/-- A disk with nothing but its working directory. -/
def empty (cwd : String) : Disk :=
  let path := rootPath cwd
  let spot := spotOf path.toList
  let bare : Disk :=
    ⟨path, [], by simpa [path, rootPath] using Path.isAbsoluteChars_absoluteChars rfl _,
      nul_not_mem_rootPath cwd⟩
  (bare.makeParents spot).makeDirectory spot

end Disk

end LuaSymbols
