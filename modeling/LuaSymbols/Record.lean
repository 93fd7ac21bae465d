import LuaSymbols.Source

/-!
# File records

A `FileRecord` holds what the index knows about one file: its import edges and
its `Bindings`, the six lists that one walk of its text fills.
-/

namespace LuaSymbols

/-- A name seen in a file. `base` is the qualified name of the table that a member
is taken from; plain names and fully qualified names have none. -/
structure Occurrence where
  name : String
  base : Option String
  range : Range
  deriving DecidableEq, Repr

/-- A local variable or a parameter. -/
structure Declaration where
  label : String
  range : Range
  uri : String
  deriving DecidableEq, Repr

structure Assignment where
  label : String
  base : Option String
  range : Range
  uri : String
  deriving DecidableEq, Repr

structure FunctionDeclaration where
  label : String
  base : Option String
  range : Range
  uri : String
  isLocal : Bool
  deriving DecidableEq, Repr

inductive SymbolKind where
  | function
  | method
  deriving DecidableEq, Repr

namespace SymbolKind

def name : SymbolKind → String
  | function => "function"
  | method => "method"

def ofName? : String → Option SymbolKind
  | "function" => some function
  | "method" => some method
  | _ => none

/-- Functions with a named base are methods. -/
def ofBase : Option String → SymbolKind
  | none => function
  | some base => if base = "" then function else method

end SymbolKind

structure OutlineSymbol where
  label : String
  kind : SymbolKind
  range : Range
  uri : String
  deriving DecidableEq, Repr

/-- Where a name is declared. -/
structure Location where
  label : String
  uri : String
  range : Range
  deriving DecidableEq, Repr

def Declaration.location (d : Declaration) : Location := ⟨d.label, d.uri, d.range⟩

def Assignment.location (a : Assignment) : Location := ⟨a.label, a.uri, a.range⟩

def FunctionDeclaration.location (f : FunctionDeclaration) : Location := ⟨f.label, f.uri, f.range⟩

/-- What a walk finds in a text, each list in the order of the walk. -/
structure Bindings where
  identifiers : List Occurrence := []
  locals : List Declaration := []
  parameters : List Declaration := []
  assignments : List Assignment := []
  functions : List FunctionDeclaration := []
  outline : List OutlineSymbol := []
  deriving DecidableEq, Repr

/-- `dirty` says that the text was edited after the bindings were made;
`dependencies` are the keys of the files that its imports led to. -/
structure FileRecord extends Bindings where
  uri : String
  dirty : Bool := false
  dependencies : List String := []
  deriving DecidableEq, Repr

namespace FileRecord

def mapBindings (f : Bindings → Bindings) (r : FileRecord) : FileRecord :=
  { r with toBindings := f r.toBindings }

def withBindings (r : FileRecord) (b : Bindings) : FileRecord := r.mapBindings fun _ => b

/-- Forgets the bindings and keeps the import edges. -/
def reset (r : FileRecord) : FileRecord := r.withBindings {}

/-- Adds an import edge unless it is there. -/
def addDependency (r : FileRecord) (uri : String) : FileRecord :=
  if uri ∈ r.dependencies then r else { r with dependencies := r.dependencies ++ [uri] }

end FileRecord

end LuaSymbols
