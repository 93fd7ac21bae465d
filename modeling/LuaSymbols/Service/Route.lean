import LuaSymbols.Uri.Percent

/-!
# Routes

The paths that the service knows, with the methods each takes. A path that
misses a route by slashes at its end alone is sent there.
-/

namespace LuaSymbols.Service

inductive Route where
  | root
  | health
  | ready
  | openDocument
  | changeDocument
  | saveDocument
  | closeDocument
  | definition
  | outline
  | files
  | globals
  | configuration
  deriving DecidableEq, Repr

namespace Route

def all : List Route :=
  [root, health, ready, openDocument, changeDocument, saveDocument, closeDocument, definition,
    outline, files, globals, configuration]

def path : Route → String
  | root => "/"
  | health => "/health/"
  | ready => "/health/ready"
  | openDocument => "/documents/open"
  | changeDocument => "/documents/change"
  | saveDocument => "/documents/save"
  | closeDocument => "/documents/close"
  | definition => "/definition"
  | outline => "/outline"
  | files => "/files/"
  | globals => "/files/globals"
  | configuration => "/configuration"

def methods : Route → List String
  | openDocument | changeDocument | saveDocument | closeDocument | definition | outline => ["POST"]
  | configuration => ["GET", "PUT"]
  | _ => ["GET"]

/-- The route of a path; a line feed at its end does not count. -/
def at? (path : String) : Option Route :=
  all.find? fun r => path = r.path ∨ path = r.path ++ "\n"

/-- The path without the slashes at its end, or with one if it has none. -/
def otherSpelling (path : String) : String :=
  match path.toList.reverse with
  | '/' :: rest => String.ofList (rest.dropWhile (· == '/')).reverse
  | _ => path ++ "/"

/-- A target without the host that may follow two slashes at its head. -/
def withoutHost : List Char → List Char
  | '/' :: '/' :: cs => cs.dropWhile (· != '/')
  | cs => cs

/-- Follows `.` and `..` among the names of a path. -/
def followDots (done : List (List Char)) : List Char → List (List Char)
  | ['.'] => done
  | ['.', '.'] => if done = [[]] then done else done.dropLast
  | name => done ++ [name]

/-- The path of a target, seen from the root and without query and fragment. Escapes
are read twice, on sending and on receipt. -/
def pathOf (target : String) : String :=
  let cs := withoutHost (target.toList.takeWhile fun c => c != '?' && c != '#')
  let names := ('/' :: cs.dropWhile (· == '/')).splitOn '/'
  let path := ['/'].intercalate (names.foldl followDots [])
  String.ofList (Percent.decode (Percent.decode path))

/-- The route of a path, also from its other spelling. -/
def find? (path : String) : Option Route :=
  match at? path with
  | some r => some r
  | none => if path = "/" then none else at? (otherSpelling path)

end Route

end LuaSymbols.Service
