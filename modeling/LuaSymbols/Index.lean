import LuaSymbols.Config
import LuaSymbols.Disk
import LuaSymbols.Lua.Grammar
import LuaSymbols.Table
import LuaSymbols.Uri
import LuaSymbols.Walk

/-!
# The index

An `Index` holds one record for every file it has met, the texts of the documents
that are open, and the list of global files. Keys are normal (`Uri.normalize`).
Records are never removed.

An operation that reads files can fail, on a path with a NUL in it; what it did
before stays. Its `Outcome` is the answer or the failure, with the index after it.
-/

namespace LuaSymbols

structure Index where
  config : Config := {}
  /-- The directory in which modules are looked for after that of the importer. -/
  root : String
  buffers : Table String := []
  files : Table FileRecord := []
  globals : List String := []
  deriving DecidableEq, Repr

structure Outcome (α : Type) where
  result : Except Disk.AccessError α
  index : Index

namespace Outcome

variable {α β : Type}

def pure (a : α) (s : Index) : Outcome α := ⟨.ok a, s⟩

/-- Goes on with the answer and the index; a failure ends the operation. -/
def andThen (o : Outcome α) (f : α → Index → Outcome β) : Outcome β :=
  match o.result with
  | .ok a => f a o.index
  | .error e => ⟨.error e, o.index⟩

def map (f : α → β) (o : Outcome α) : Outcome β := o.andThen fun a s => pure (f a) s

end Outcome

namespace Index

/-- An index over a workspace. An empty root means the working directory. -/
def create (cwd root : String) (config : Config) : Index :=
  { config := config, root := Path.absolute cwd root }

/-- The record of a file, whatever spelling names it. -/
def get? (s : Index) (uri : String) : Option FileRecord := s.files.get? (Uri.normalize uri)

def modify (s : Index) (key : String) (f : FileRecord → FileRecord) : Index :=
  { s with files := s.files.modify key f }

/-- Adds an empty record. -/
def register (s : Index) (key : String) : Index :=
  { s with files := s.files.set key { uri := key } }

/-- Adds an import edge to a record that is there. -/
def addDependency (s : Index) (key dependency : String) : Index :=
  s.modify key (·.addDependency dependency)

/-- Adds the edge of an import that the file at `key` makes. The empty key stands for no
file, and its imports leave no edge. -/
def addImport (s : Index) (key dependency : String) : Index :=
  if key = "" then s else s.addDependency key dependency

/-- Adds a global file unless it is there. -/
def addGlobal (s : Index) (uri : String) : Index :=
  if uri ∈ s.globals then s else { s with globals := s.globals ++ [uri] }

/-- Replaces the configuration. Every record is dirty under the new one. -/
def configure (s : Index) (config : Config) : Index :=
  { s with config := config, files := s.files.mapValues fun r => { r with dirty := true } }

/-! ## Documents -/

/-- Opens a document, or replaces its text. -/
def openDocument (s : Index) (uri text : String) : Index :=
  { s with buffers := s.buffers.set (Uri.normalize uri) text }

def isOpen (s : Index) (uri : String) : Bool := s.buffers.has (Uri.normalize uri)

def closeDocument (s : Index) (uri : String) : Index :=
  { s with buffers := s.buffers.erase (Uri.normalize uri) }

/-- The keys of the open documents, in order. -/
def openKeys (s : Index) : List String := s.buffers.keys.mergeSort (· ≤ ·)

/-- The current text of a file: that of the open document, else that on disk;
none if there is neither. -/
def text (s : Index) (d : Disk) (uri : String) : Except Disk.AccessError (Option String) :=
  let key := Uri.normalize uri
  match s.buffers.get? key with
  | some text => .ok (some text)
  | none =>
    match d.readText (Uri.toPath key) with
    | .ok text => .ok (some text)
    | .error .notFound => .ok none
    | .error e => .error e

/-! ## The facts of one text -/

/-- The walk of a text, if the dialect accepts it. -/
def traceOf? (s : Index) (key text : String) : Option Trace :=
  match Lua.load s.config.version text with
  | .ok root => some (Walk.trace ⟨key, .ofText text, s.config.includeKeywords⟩ root)
  | .error _ => none

/-- The walk of the current text of a file; none where the text is missing,
unreadable or refused. Only a NUL in the path is a failure. -/
def trace? (s : Index) (d : Disk) (key : String) : Except Disk.AccessError (Option Trace) :=
  match s.text d key with
  | .ok (some text) => .ok (s.traceOf? key text)
  | .ok none => .ok none
  | .error .embeddedNul => .error .embeddedNul
  | .error _ => .ok none

end Index

/-- The bindings of a walk, none if it went too deep. -/
def Trace.settled (t : Trace) : Bindings := if t.isComplete then t.bindings else {}

end LuaSymbols
