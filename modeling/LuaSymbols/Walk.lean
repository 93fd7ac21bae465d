import LuaSymbols.Record
import LuaSymbols.Tree.Name

/-!
# Walking a tree

`Walk.events` lists in order what a syntax tree holds: its names, what they
declare, and its include calls. Children come in source order, with two
exceptions: a member access gives its table before its field, and a declaration
gives name `i` before value `i`.

The walk has a limit on its depth. Where a node lies deeper, `tooDeep` stands in
the list, and nothing behind the first of these counts (`Trace.reached`).
-/

namespace LuaSymbols

/-- What the walk reports. `includeCall` is a call that imports `reference`; `dotted`
says that the dots in it separate directories. -/
inductive Event where
  | identifier (o : Occurrence)
  | localName (d : Declaration)
  | parameter (d : Declaration)
  | assignment (a : Assignment)
  | function (f : FunctionDeclaration)
  | outline (s : OutlineSymbol)
  | includeCall (reference : String) (dotted : Bool)
  | tooDeep
  deriving DecidableEq, Repr

/-- The include call that an event is, as reference and `dotted` flag. -/
def Event.include? : Event → Option (String × Bool)
  | includeCall reference dotted => some (reference, dotted)
  | _ => none

/-- What the walk has to know besides the tree. -/
structure Walk where
  uri : String
  source : Source
  keywords : List String

namespace Kind

/-- The kinds that the walk passes through to all their parts. -/
def isContainer : Kind → Bool
  | chunk | block | ifStatement | elseifStatement | elseStatement | whileStatement
  | repeatStatement | doStatement | forStatement | gotoStatement | labelStatement
  | returnStatement | expressionList | variableList | arguments | tableConstructor | field
  | bracketIndex | binaryExpression | unaryExpression | parenthesizedExpression | parameters =>
    .true
  | _ => .false

end Kind

namespace Node

def isIdentifier (n : Node) : Bool := n.kind = .identifier

/-- The last part of a kind. -/
def lastPart? (n : Node) (k : Kind) : Option Node := (n.parts.filter (·.kind = k)).getLast?

/-- Targets and values of an assignment. -/
def assignmentParts (n : Node) : List Node × List Node :=
  (((n.lastPart? .variableList).elim [] parts).filter (·.kind ≠ .attrib),
    (n.lastPart? .expressionList).elim [] parts)

/-- The names that one part of a declaration without values introduces. -/
def declaredNames (n : Node) : List Node :=
  if n.kind = .attributeNameList ∨ n.kind = .variableList then n.parts.filter isIdentifier
  else if n.isIdentifier then [n]
  else []

/-- Names and values of a declaration. -/
def declarationParts (n : Node) : List Node × List Node :=
  match n.parts.find? (·.kind = .assignmentStatement) with
  | some a => (a.assignmentParts.1.filter isIdentifier, a.assignmentParts.2)
  | none => (n.parts.flatMap declaredNames, [])

/-- Callee and arguments of a call, by their places or else by their order. -/
def callParts (n : Node) : Option Node × Option Node :=
  match n.child? .name, n.child? .arguments with
  | some callee, some arguments => (some callee, some arguments)
  | callee, arguments =>
    match n.outerParts? with
    | some (first, last) => (some first, some last)
    | none => (callee, arguments)

/-- The value of the first argument, if that is a string. -/
def firstString? (arguments : Node) : Option String :=
  if arguments.kind = .string then arguments.stringValue?
  else arguments.parts.head?.bind stringValue?

/-- The names that a loop clause introduces. -/
def loopNames (n : Node) : List Node :=
  if n.kind = .forNumericClause then (n.child? .name).toList.filter isIdentifier
  else ((n.parts.filter (·.kind = .variableList)).flatMap parts).filter isIdentifier

end Node

namespace Walk

def range (w : Walk) (n : Node) : Range := w.source.range n.span

def declaration (w : Walk) (n : Node) : Declaration := ⟨n.text, w.range n, w.uri⟩

/-! ## Events of single nodes -/

def memberEvents (w : Walk) (n table tail : Node) : List Event :=
  let base := table.qualifiedName
  [.identifier ⟨tail.text, some base, w.range tail⟩,
    .identifier ⟨base ++ n.separator ++ tail.text, none, w.range tail⟩]

def targetEvents (w : Walk) (n : Node) : List Event :=
  match n.target? with
  | some (label, base) => [.assignment ⟨label, base, w.range n, w.uri⟩]
  | none => []

/-- The owner under which the fields of a table assigned to the target are known. -/
def targetOwner? (n : Node) : Option String := n.target?.map fun _ => n.qualifiedName

def functionEvents (w : Walk) (n name : Node) : List Event :=
  match name.target? with
  | some (label, base) =>
    if label = "" then []
    else
      [.function ⟨label, base, w.range n, w.uri, n.children.any (·.kind = .other "local")⟩,
        .outline ⟨label, .ofBase base, w.range n, w.uri⟩]
  | none => []

def includeEvents (w : Walk) (callee arguments : Option Node) : List Event :=
  match callee, arguments.bind Node.firstString? with
  | some callee, some reference =>
    if callee.isIdentifier ∧ callee.text ∈ w.keywords ∧ reference ≠ "" then
      [.includeCall reference (callee.text = "require")]
    else []
  | _, _ => []

mutual
/-- The fields of a table constructor that are keyed by a name, as members of
`owner`, and below each of them those of its own value. -/
def tableEvents (w : Walk) (owner : String) : Node → List Event
  | .mk l cs => if l.kind = .tableConstructor then fieldEvents w owner cs else []

def fieldEvents (w : Walk) (owner : String) : List Node → List Event
  | [] => []
  | .mk l cs :: rest =>
    (if l.named ∧ l.kind = .field then
      match (Node.mk l cs).child? .name with
      | some key =>
        if key.isIdentifier then
          .assignment ⟨key.text, some owner, w.range key, w.uri⟩ ::
            valueEvents w (owner ++ "." ++ key.text) cs
        else []
      | none => []
    else []) ++ fieldEvents w owner rest

/-- The events of the first node in the place of a value. -/
def valueEvents (w : Walk) (owner : String) : List Node → List Event
  | [] => []
  | c :: rest =>
    if c.label.field = some .value then tableEvents w owner c else valueEvents w owner rest
end

/-! ## Events of trees -/

/-- Target by target, each followed by its value and by the fields of that value;
values without a target come last. -/
def pairEvents (w : Walk) (visit : Node → List Event) (owner? : Node → Option String)
    (before : Node → List Event) : List Node → List Node → List Event
  | [], values => values.flatMap visit
  | t :: targets, [] => before t ++ visit t ++ pairEvents w visit owner? before targets []
  | t :: targets, v :: values =>
    before t ++ visit t ++ visit v ++ (owner? t).elim [] (tableEvents w · v) ++
      pairEvents w visit owner? before targets values

def parameterEvents (w : Walk) (visit : Node → List Event) (n : Node) : List Event :=
  (if n.isIdentifier then [.parameter (w.declaration n)] else []) ++ visit n

/-- The events of the nodes of a tree, to the given depth. -/
def events (w : Walk) : Nat → Node → List Event
  | 0, _ => [.tooDeep]
  | depth + 1, n =>
    match n.kind with
    | .identifier => [.identifier ⟨n.text, none, w.range n⟩]
    | .dotIndex | .methodIndex =>
      match n.memberParts? with
      | some (table, tail) => events w depth table ++ w.memberEvents n table tail
      | none => []
    | .variableDeclaration =>
      n.declarationParts.1.map (.localName <| w.declaration ·) ++
        w.pairEvents (events w depth) (some ·.text) (fun _ => []) n.declarationParts.1
          n.declarationParts.2
    | .assignmentStatement =>
      w.pairEvents (events w depth) targetOwner? w.targetEvents n.assignmentParts.1
        n.assignmentParts.2
    | .functionDeclaration | .functionDefinition =>
      (n.child? .name).elim [] (fun name => w.functionEvents n name ++ events w depth name) ++
        (n.child? .parameters).elim []
          (fun ps => ps.parts.flatMap (w.parameterEvents (events w depth))) ++
        (n.childrenAt .body).flatMap (events w depth)
    | .functionCall =>
      w.includeEvents n.callParts.1 n.callParts.2 ++ n.callParts.1.elim [] (events w depth) ++
        n.callParts.2.elim [] (events w depth)
    | .forNumericClause | .forGenericClause =>
      n.loopNames.map (.localName <| w.declaration ·) ++ n.parts.flatMap (events w depth)
    | k =>
      if k.isContainer then n.parts.flatMap (events w depth)
      else (n.childrenAt .body).flatMap (events w depth)

end Walk

/-! ## Traces -/

/-- How many nodes deep a walk may go. It stands for the limit on nested calls, of which the
service makes about two for a node. There the walks of nested imports share this limit; here
every walk has it for itself. -/
def depthLimit : Nat := 450

abbrev Trace := List Event

namespace Trace

/-- The events before the walk went too deep. -/
def reached (t : Trace) : Trace := t.takeWhile (· ≠ .tooDeep)

def isComplete (t : Trace) : Bool := !t.contains .tooDeep

/-- The include calls that were reached. -/
def includes (t : Trace) : List (String × Bool) := t.reached.filterMap Event.include?

def bindings (t : Trace) : Bindings where
  identifiers := t.filterMap fun | .identifier o => some o | _ => none
  locals := t.filterMap fun | .localName d => some d | _ => none
  parameters := t.filterMap fun | .parameter d => some d | _ => none
  assignments := t.filterMap fun | .assignment a => some a | _ => none
  functions := t.filterMap fun | .function f => some f | _ => none
  outline := t.filterMap fun | .outline s => some s | _ => none

end Trace

/-- The lists with what one event adds. -/
def Bindings.note (b : Bindings) : Event → Bindings
  | .identifier o => { b with identifiers := b.identifiers ++ [o] }
  | .localName d => { b with locals := b.locals ++ [d] }
  | .parameter d => { b with parameters := b.parameters ++ [d] }
  | .assignment a => { b with assignments := b.assignments ++ [a] }
  | .function f => { b with functions := b.functions ++ [f] }
  | .outline s => { b with outline := b.outline ++ [s] }
  | .includeCall .. | .tooDeep => b

def Walk.trace (w : Walk) (root : Node) : Trace := w.events depthLimit root

end LuaSymbols
