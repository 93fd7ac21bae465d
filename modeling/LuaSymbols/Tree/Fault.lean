import LuaSymbols.Tree
import LuaSymbols.Version

/-!
# Rejected trees

A tree is rejected for a syntax error (`Node.fault`) or for syntax that the
dialect does not have (`Node.gate?`). Both look through the tree with a stack
(`Node.search`): the first goes into flagged nodes and takes all their children,
the second goes into all nodes and takes the named children.
-/

namespace LuaSymbols

inductive Fault.Cause where
  | missing (kind : Kind)
  | unexpected (snippet : String)
  | invalid
  | tooNew (kind : Kind) (required configured : LuaVersion)
  deriving DecidableEq, Repr

/-- What is wrong with a tree, and where its node starts. -/
structure Fault where
  cause : Fault.Cause
  point : Point
  deriving DecidableEq, Repr

namespace Fault

def Cause.message : Cause → String
  | .missing kind => "missing '" ++ kind.name ++ "'"
  | .unexpected snippet => "unexpected '" ++ snippet ++ "'"
  | .invalid => "invalid syntax"
  | .tooNew kind required configured =>
    "'" ++ kind.name ++ "' requires Lua " ++ required.name ++
      " (configured: " ++ configured.name ++ ")"

def message (f : Fault) : String := f.cause.message

/-- Lines are told from one, byte columns from zero. -/
def line (f : Fault) : Nat := f.point.row + 1

def column (f : Fault) : Nat := f.point.column

def render (f : Fault) : String :=
  "[" ++ toString f.line ++ ":" ++ toString f.column ++ "] " ++ f.message

end Fault

namespace Node

/-! ## Searching -/

/-- The children that a node lets a search go on to. -/
def opened (opens : Node → Node → Bool) (n : Node) : List Node := n.children.filter (opens n)

theorem sizeOf_filter_append_lt (p : Node → Bool) (cs stack : List Node) :
    sizeOf (cs.filter p ++ stack) < sizeOf cs + sizeOf stack := by
  induction cs with
  | nil => simp
  | cons c cs ih =>
    rw [List.filter_cons]
    split
    · simp only [List.cons_append, List.cons.sizeOf_spec]
      omega
    · simp only [List.cons.sizeOf_spec]
      omega

theorem sizeOf_opened_append_lt (opens : Node → Node → Bool) (n : Node) (stack : List Node) :
    sizeOf (n.opened opens ++ stack) < sizeOf (n :: stack) := by
  cases n with
  | mk l cs =>
    have h := sizeOf_filter_append_lt (opens (mk l cs)) cs stack
    simp only [opened, children, List.cons.sizeOf_spec, mk.sizeOf_spec]
    omega

/-- The first thing found at the nodes of a stack, the top of which is its head. A node at
which nothing is found makes room for the children that it lets the search go on to. -/
def search (found? : Node → Option Fault) (opens : Node → Node → Bool) :
    List Node → Option Fault
  | [] => none
  | n :: stack =>
    match found? n with
    | some f => some f
    | none => search found? opens (n.opened opens ++ stack)
termination_by stack => sizeOf stack
decreasing_by exact sizeOf_opened_append_lt opens n stack

/-! ## Syntax errors -/

/-- The beginning of the first line of an erroneous text. -/
def snippet (text : String) : String :=
  String.ofList ((text.toList.takeWhile (· != '\n')).take 40)

/-- The fault of one node, its children aside. -/
def ownFault? (n : Node) : Option Fault :=
  if n.label.isMissing then some ⟨.missing n.kind, n.span.start⟩
  else if n.label.isError then some ⟨.unexpected (snippet n.text), n.span.start⟩
  else none

/-- The error that a tree with errors is rejected for: that of the first missing or
erroneous node, looked for only below flagged nodes. -/
def fault (root : Node) : Fault :=
  (search ownFault? (fun n _ => n.label.hasError) [root]).getD ⟨.invalid, root.span.start⟩

/-! ## Newer syntax -/

/-- The operators on integers that came with 5.3. -/
def integerOperators : List String := ["//", "&", "|", "~", "<<", ">>"]

def hasIntegerOperator (n : Node) : Bool :=
  n.children.any fun c => !c.named && integerOperators.contains c.kind.name

/-- The dialect that introduced the syntax of a node, its children aside. -/
def requiredVersion? (n : Node) : Option LuaVersion :=
  match n.kind with
  | .gotoStatement | .labelStatement => some .lua52
  | .attrib => some .lua54
  | .binaryExpression | .unaryExpression => if n.hasIntegerOperator then some .lua53 else none
  | _ => none

def ownGate? (v : LuaVersion) (n : Node) : Option Fault :=
  match n.requiredVersion? with
  | some required =>
    if v.supports required then none else some ⟨.tooNew n.kind required v, n.span.start⟩
  | none => none

/-- The first use of syntax that `v` does not have, looked for in all the tree. -/
def scanGate? (v : LuaVersion) (root : Node) : Option Fault :=
  search (ownGate? v) (fun _ c => c.named) [root]

/-- The first use of syntax that `v` does not have. 5.4 has all of it. -/
def gate? (v : LuaVersion) (root : Node) : Option Fault :=
  if v = .lua54 then none else scanGate? v root

end Node

end LuaSymbols
