import LuaSymbols.Source

/-!
# Syntax trees

A `Node` is a `Label` over its children. Keywords and operators are unnamed nodes
whose kind is their own text; comments may stand anywhere and are no part of a
construct (`Node.parts`).
-/

namespace LuaSymbols

inductive Kind where
  | chunk
  | block
  | ifStatement
  | elseifStatement
  | elseStatement
  | whileStatement
  | repeatStatement
  | doStatement
  | forStatement
  | forNumericClause
  | forGenericClause
  | gotoStatement
  | labelStatement
  | breakStatement
  | emptyStatement
  | returnStatement
  | variableDeclaration
  | implicitVariableDeclaration
  | assignmentStatement
  | functionDeclaration
  | functionDefinition
  | functionCall
  | expressionList
  | variableList
  | attributeNameList
  | attrib
  | parameters
  | arguments
  | identifier
  | dotIndex
  | methodIndex
  | bracketIndex
  | binaryExpression
  | unaryExpression
  | parenthesizedExpression
  | tableConstructor
  | field
  | string
  | stringContent
  | number
  | nil
  | true
  | false
  | vararg
  | hashBang
  | comment
  /-- A kind known by its name alone, such as a keyword or an operator. -/
  | other (name : String)
  deriving DecidableEq, Inhabited, Repr

namespace Kind

def name : Kind → String
  | chunk => "chunk"
  | block => "block"
  | ifStatement => "if_statement"
  | elseifStatement => "elseif_statement"
  | elseStatement => "else_statement"
  | whileStatement => "while_statement"
  | repeatStatement => "repeat_statement"
  | doStatement => "do_statement"
  | forStatement => "for_statement"
  | forNumericClause => "for_numeric_clause"
  | forGenericClause => "for_generic_clause"
  | gotoStatement => "goto_statement"
  | labelStatement => "label_statement"
  | breakStatement => "break_statement"
  | emptyStatement => "empty_statement"
  | returnStatement => "return_statement"
  | variableDeclaration => "variable_declaration"
  | implicitVariableDeclaration => "implicit_variable_declaration"
  | assignmentStatement => "assignment_statement"
  | functionDeclaration => "function_declaration"
  | functionDefinition => "function_definition"
  | functionCall => "function_call"
  | expressionList => "expression_list"
  | variableList => "variable_list"
  | attributeNameList => "attribute_name_list"
  | attrib => "attribute"
  | parameters => "parameters"
  | arguments => "arguments"
  | identifier => "identifier"
  | dotIndex => "dot_index_expression"
  | methodIndex => "method_index_expression"
  | bracketIndex => "bracket_index_expression"
  | binaryExpression => "binary_expression"
  | unaryExpression => "unary_expression"
  | parenthesizedExpression => "parenthesized_expression"
  | tableConstructor => "table_constructor"
  | field => "field"
  | string => "string"
  | stringContent => "string_content"
  | number => "number"
  | nil => "nil"
  | true => "true"
  | false => "false"
  | vararg => "vararg_expression"
  | hashBang => "hash_bang_line"
  | comment => "comment"
  | other name => name

/-- The kinds that have a constructor of their own. -/
def known : List Kind :=
  [chunk, block, ifStatement, elseifStatement, elseStatement, whileStatement, repeatStatement,
    doStatement, forStatement, forNumericClause, forGenericClause, gotoStatement, labelStatement,
    breakStatement, emptyStatement, returnStatement, variableDeclaration,
    implicitVariableDeclaration, assignmentStatement, functionDeclaration, functionDefinition,
    functionCall, expressionList, variableList, attributeNameList, attrib, parameters,
    arguments, identifier, dotIndex, methodIndex, bracketIndex, binaryExpression,
    unaryExpression, parenthesizedExpression, tableConstructor, field, string, stringContent,
    number, nil, true, false, vararg, hashBang, comment]

def ofName (s : String) : Kind := (known.find? (·.name == s)).getD (other s)

def isMember : Kind → Bool
  | dotIndex | methodIndex => .true
  | _ => .false

end Kind

/-- The place that a node has in its parent. -/
inductive Field where
  | name
  | table
  | field
  | method
  | value
  | arguments
  | parameters
  | body
  | other (name : String)
  deriving DecidableEq, Inhabited, Repr

def Field.ofName : String → Field
  | "name" => name
  | "table" => table
  | "field" => field
  | "method" => method
  | "value" => value
  | "arguments" => arguments
  | "parameters" => parameters
  | "body" => body
  | s => other s

/-- What a node says of itself. `hasError` marks a node that is, or holds, an
error or a missing token. -/
structure Label where
  kind : Kind
  named : Bool := true
  text : String := ""
  span : Span := default
  field : Option Field := none
  isError : Bool := false
  isMissing : Bool := false
  hasError : Bool := false
  deriving DecidableEq, Inhabited, Repr

inductive Node where
  | mk (label : Label) (children : List Node)
  deriving Inhabited, Repr

namespace Node

def label : Node → Label
  | mk l _ => l

def children : Node → List Node
  | mk _ cs => cs

def kind (n : Node) : Kind := n.label.kind

def text (n : Node) : String := n.label.text

def span (n : Node) : Span := n.label.span

def named (n : Node) : Bool := n.label.named

def namedChildren (n : Node) : List Node := n.children.filter named

def isPart (n : Node) : Bool := n.named && n.kind ≠ .comment

/-- The named children that are not comments. -/
def parts (n : Node) : List Node := n.children.filter isPart

/-- The first child in a place. -/
def child? (n : Node) (f : Field) : Option Node := n.children.find? (·.label.field = some f)

/-- All children in a place. -/
def childrenAt (n : Node) (f : Field) : List Node := n.children.filter (·.label.field = some f)

/-- The node put in a place of a parent. -/
def inPlace (f : Field) : Node → Node
  | mk l cs => mk { l with field := some f } cs

/-! ## Building -/

/-- The span from the first to the last of some nodes. -/
def cover (nodes : List Node) : Span :=
  ⟨(nodes.head?.map (·.span.start)).getD default, (nodes.getLast?.map (·.span.stop)).getD default⟩

/-- A node over its children, from the first to the last of them. -/
def branch (kind : Kind) (children : List Node) : Node :=
  mk { kind := kind, span := cover children } children

end Node

end LuaSymbols
