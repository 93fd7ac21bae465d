import LuaSymbols.Lua.Token
import LuaSymbols.Tree.Fault

/-!
# The Lua grammar

`Lua.parse?` turns a source into a syntax tree, by recursive descent over its
tokens. A reserved word is a keyword only where the grammar can use it: every
other word, and a reserved word in any other place, is a name. The tree of a
construct runs from its first to its last token.

The grammar is that of 5.4 with the `global` declarations of later versions;
`Lua.load` refuses what the configured dialect does not have.
-/

namespace LuaSymbols.Lua

/-- The token that comes next, and the text behind it. -/
structure Input where
  ahead : Token
  rest : Token.Cursor

abbrev Parse := StateT Input Option

namespace Parse

/-! ## Tokens -/

def peek : Parse Token := return (← get).ahead

/-- Takes a token. The one behind it stands in the context `c`. -/
def take (c : Context) : Parse Token
  | ⟨t, rest⟩ =>
    if t.shape = .finish then none
    else (Token.next? c rest).map fun (next, rest) => (t, ⟨next, rest⟩)

def isSymbol (t : Token) (s : String) : Bool := t.shape = .symbol && t.text == s

def isWord (t : Token) (w : String) : Bool := t.shape = .word && t.text == w

def atSymbol (s : String) : Parse Bool := return isSymbol (← peek) s

def atWord (w : String) : Parse Bool := return isWord (← peek) w

def symbol (s : String) (c : Context) : Parse Node := do
  let t ← take c
  if isSymbol t s then return t.mark else failure

def keyword (w : String) (c : Context) : Parse Node := do
  let t ← take c
  if isWord t w then return t.mark else failure

/-- A name: any word. -/
def name (c : Context) : Parse Node := do
  let t ← take c
  if t.shape = .word then return t.leaf .identifier else failure

/-- One or more items with commas between them, each in the context `c` but for the
first. -/
def commaList (c : Context) (item : Parse Node) : Nat → Parse (List Node)
  | 0 => failure
  | fuel + 1 => do
    let first ← item
    if ← atSymbol "," then
      let comma ← symbol "," c
      return first :: comma :: (← commaList c item fuel)
    else return [first]

/-! ## Operators -/

/-- How tightly an operator binds on its left and on its right. A chain of one
operator groups to the right exactly where both are equal. -/
structure Power where
  left : Nat
  right : Nat

def leftward (n : Nat) : Power := ⟨n, n + 1⟩

def rightward (n : Nat) : Power := ⟨n, n⟩

def unaryPower : Nat := 11

def binaryWord? : String → Option Power
  | "or" => some (leftward 1)
  | "and" => some (leftward 2)
  | _ => none

def binarySymbol? : String → Option Power
  | "<" | ">" | "<=" | ">=" | "~=" | "==" => some (leftward 3)
  | "|" => some (leftward 4)
  | "~" => some (leftward 5)
  | "&" => some (leftward 6)
  | "<<" | ">>" => some (leftward 7)
  | ".." => some (rightward 8)
  | "+" | "-" => some (leftward 9)
  | "*" | "/" | "//" | "%" => some (leftward 10)
  | "^" => some (rightward 12)
  | _ => none

def binary? (t : Token) : Option Power :=
  match t.shape with
  | .word => binaryWord? t.text
  | .symbol => binarySymbol? t.text
  | _ => none

def isUnary (t : Token) : Bool :=
  match t.shape with
  | .word => t.text == "not"
  | .symbol => ["-", "#", "~"].contains t.text
  | _ => false

/-! ## Words with a place of their own -/

/-- The words that no expression can start with as a name. -/
def expressionWords : List String := ["nil", "true", "false", "not", "function"]

/-- The words that end a block of some kind. Behind a statement or a `return` each of
them ends every block, so that a block of another kind is refused there. -/
def blockEnds : List String := ["end", "else", "elseif", "until"]

/-- Whether an expression can start with a token. -/
def startsExpression (t : Token) : Bool :=
  match t.shape with
  | .symbol => ["(", "\x7b", "-", "#", "~", "..."].contains t.text
  | .finish => false
  | _ => true

/-- A `global` that is no declaration is an unnamed variable. -/
def nameOrGlobal (t : Token) : Node := if t.text = "global" then t.mark else t.leaf .identifier

def literal? (t : Token) : Option Node :=
  match t.shape with
  | .number => some (t.leaf .number)
  | .string _ => t.stringNode?
  | .symbol => if t.text = "..." then some (t.leaf .vararg) else none
  | .word =>
    if t.text = "nil" then some (t.leaf .nil)
    else if t.text = "true" then some (t.leaf .true)
    else if t.text = "false" then some (t.leaf .false)
    else none
  | .finish => none

/-- A block node over statements, if there are any. -/
def blockOf (f : Option Field) (statements : List Node) : List Node :=
  match statements, f with
  | [], _ => []
  | ss, some f => [(Node.branch .block ss).inPlace f]
  | ss, none => [.branch .block ss]

/-- What can be assigned to. -/
def isVariable (n : Node) : Bool :=
  n.kind = .identifier || n.kind = .dotIndex || n.kind = .bracketIndex || n.kind = .other "global"

/-! ## Names, attributes and parameters -/

/-- An attribute, if one stands here. -/
def attrib? : Parse (List Node) := do
  if ← atSymbol "<" then
    return [.branch .attrib [← symbol "<" .plain, ← name .angle, ← symbol ">" .plain]]
  else return []

/-- Names with their attributes and commas. -/
def attributedNames : Nat → Parse (List Node)
  | 0 => failure
  | fuel + 1 => do
    let first := (← name .plain).inPlace .name :: (← attrib?)
    if ← atSymbol "," then
      let comma ← symbol "," .plain
      return first ++ comma :: (← attributedNames fuel)
    else return first

/-- The mark of further arguments, with the name that they may have. -/
def vararg : Parse (List Node) := do
  let dots ← take .plain
  if isSymbol dots "..." then
    if (← peek).shape = .word then return [dots.leaf .vararg, ← name .plain]
    else return [dots.leaf .vararg]
  else failure

def parameterList : Nat → Parse (List Node)
  | 0 => failure
  | fuel + 1 => do
    if ← atSymbol "..." then vararg
    else
      let first ← name .plain
      if ← atSymbol "," then
        let comma ← symbol "," .parameter
        return first :: comma :: (← parameterList fuel)
      else return [first]

def parameters (fuel : Nat) : Parse Node := do
  let opening ← symbol "(" .parameter
  let inner ← if ← atSymbol ")" then pure [] else parameterList fuel
  return Node.inPlace .parameters (.branch .parameters (opening :: inner ++ [← symbol ")" .plain]))

def dotted (table dot tail : Node) : Node :=
  .branch .dotIndex [table.inPlace .table, dot, tail.inPlace .field]

def methodOf (table colon tail : Node) : Node :=
  .branch .methodIndex [table.inPlace .table, colon, tail.inPlace .method]

/-- The fields and the method behind the first name of a declared function. -/
def functionPath : Nat → Node → Parse Node
  | 0, _ => failure
  | fuel + 1, n => do
    if ← atSymbol "." then functionPath fuel (dotted n (← symbol "." .plain) (← name .plain))
    else if ← atSymbol ":" then return methodOf n (← symbol ":" .plain) (← name .plain)
    else return n

def callOf (callee arguments : Node) : Node :=
  .branch .functionCall [callee.inPlace .name, arguments.inPlace .arguments]

/-! ## Expressions and statements -/

mutual
/-- An expression whose operators bind at least as tightly as `power`. -/
def expression : Nat → Nat → Parse Node
  | 0, _ => failure
  | fuel + 1, power => do operators fuel power (← operand fuel)

/-- The operators behind a left operand. -/
def operators : Nat → Nat → Node → Parse Node
  | 0, _, _ => failure
  | fuel + 1, power, left => do
    match binary? (← peek) with
    | some p =>
      if power ≤ p.left then
        let op ← take .operand
        let right ← expression fuel p.right
        operators fuel power (.branch .binaryExpression [left, op.mark, right])
      else return left
    | none => return left

def operand : Nat → Parse Node
  | 0 => failure
  | fuel + 1 => do
    let t ← peek
    if isUnary t then
      return .branch .unaryExpression [(← take .operand).mark, ← expression fuel unaryPower]
    else if isWord t "function" then
      let opening ← keyword "function" .plain
      return .branch .functionDefinition (opening :: (← functionBody fuel))
    else if isSymbol t "\x7b" then table fuel .plain
    else
      match literal? t with
      | some n =>
        let _ ← take .plain
        return n
      | none => suffixes fuel (← primary fuel)

/-- A name or a parenthesised expression. -/
def primary : Nat → Parse Node
  | 0 => failure
  | fuel + 1 => do
    if (← peek).shape = .word then return nameOrGlobal (← take .callee)
    else
      return .branch .parenthesizedExpression
        [← symbol "(" .operand, ← expression fuel 0, ← symbol ")" .callee]

/-- The fields, indices and calls behind a primary expression. -/
def suffixes : Nat → Node → Parse Node
  | 0, _ => failure
  | fuel + 1, n => do
    let t ← peek
    if isSymbol t "." then suffixes fuel (dotted n (← symbol "." .plain) (← name .callee))
    else if isSymbol t "[" then
      suffixes fuel (.branch .bracketIndex
        [n.inPlace .table, ← symbol "[" .operand, (← expression fuel 0).inPlace .field,
          ← symbol "]" .callee])
    else if isSymbol t ":" then
      let method := methodOf n (← symbol ":" .plain) (← name .callee)
      suffixes fuel (callOf method (← arguments fuel))
    else if isSymbol t "(" || isSymbol t "\x7b" || t.stringNode?.isSome then
      suffixes fuel (callOf n (← arguments fuel))
    else return n

def arguments : Nat → Parse Node
  | 0 => failure
  | fuel + 1 => do
    let t ← peek
    match t.stringNode? with
    | some s =>
      let _ ← take .callee
      return .branch .arguments [s]
    | none =>
      if isSymbol t "\x7b" then return .branch .arguments [← table fuel .callee]
      else
        let opening ← symbol "(" .operand
        let inner ←
          if ← atSymbol ")" then pure [] else commaList .operand (expression fuel 0) fuel
        return .branch .arguments (opening :: inner ++ [← symbol ")" .callee])

/-- A table constructor; what follows it stands in the context `c`. -/
def table : Nat → Context → Parse Node
  | 0, _ => failure
  | fuel + 1, c => do
    let opening ← symbol "\x7b" .operand
    let inner ← fields fuel
    return .branch .tableConstructor (opening :: inner ++ [← symbol "\x7d" c])

def fields : Nat → Parse (List Node)
  | 0 => failure
  | fuel + 1 => do
    if ← atSymbol "\x7d" then return []
    let first ← tableField fuel
    if (← atSymbol ",") || (← atSymbol ";") then
      let separator ← take .operand
      return first :: separator.mark :: (← fields fuel)
    else return [first]

def tableField : Nat → Parse Node
  | 0 => failure
  | fuel + 1 => do
    let t ← peek
    if isSymbol t "[" then
      return .branch .field
        [← symbol "[" .operand, (← expression fuel 0).inPlace .name, ← symbol "]" .plain,
          ← symbol "=" .operand, (← expression fuel 0).inPlace .value]
    else if t.shape = .word && !expressionWords.contains t.text then
      let key := nameOrGlobal (← take .callee)
      if ← atSymbol "=" then
        return .branch .field
          [key.inPlace .name, ← symbol "=" .operand, (← expression fuel 0).inPlace .value]
      else return .branch .field [(← operators fuel 0 (← suffixes fuel key)).inPlace .value]
    else return .branch .field [(← expression fuel 0).inPlace .value]

/-- Parameters, block and `end` of a function. -/
def functionBody : Nat → Parse (List Node)
  | 0 => failure
  | fuel + 1 => do
    let ps ← parameters fuel
    let body ← block fuel ["end"]
    return ps :: blockOf (some .body) body ++ [← keyword "end" .plain]

/-- The statements of a block up to a word that ends it, or to the end of the source.
`ends` are the words that end it here, `later` those that end it behind a statement.
Nothing stands behind a `return`. -/
def statements : Nat → List String → List String → Parse (List Node)
  | 0, _, _ => failure
  | fuel + 1, ends, later => do
    let t ← peek
    if t.shape = .finish || t.shape = .word && ends.contains t.text then return []
    else if isWord t "return" then return [← returnStatement fuel later]
    else
      let first ← statement fuel
      return first :: (← statements fuel later later)

/-- `ends` are the words that end the block around the statement. -/
def returnStatement : Nat → List String → Parse Node
  | 0, _ => failure
  | fuel + 1, ends => do
    let opening ← keyword "return" .operand
    let t ← peek
    let values ←
      if startsExpression t && !(t.shape = .word && ends.contains t.text) then
        pure [← expressionList fuel]
      else pure []
    let closing ← if ← atSymbol ";" then pure [← symbol ";" .plain] else pure []
    return .branch .returnStatement (opening :: values ++ closing)

def expressionList : Nat → Parse Node
  | 0 => failure
  | fuel + 1 => do
    return .branch .expressionList (← commaList .operand (expression fuel 0) fuel)

/-- A block that ends with one of some words. -/
def block : Nat → List String → Parse (List Node)
  | 0, _ => failure
  | fuel + 1, ends => statements fuel ends blockEnds

def statement : Nat → Parse Node
  | 0 => failure
  | fuel + 1 => do
    let t ← peek
    match t.shape, t.text with
    | .symbol, ";" => return .branch .emptyStatement [(← take .plain).mark]
    | .symbol, "::" =>
      return .branch .labelStatement [← symbol "::" .plain, ← name .plain, ← symbol "::" .plain]
    | .word, "break" => return .branch .breakStatement [(← take .plain).mark]
    | .word, "goto" => return .branch .gotoStatement [← keyword "goto" .plain, ← name .plain]
    | .word, "do" =>
      let opening ← keyword "do" .plain
      let body ← block fuel ["end"]
      return .branch .doStatement
        (opening :: blockOf (some .body) body ++ [← keyword "end" .plain])
    | .word, "while" =>
      let opening ← keyword "while" .operand
      let condition ← expression fuel 0
      let loop ← keyword "do" .plain
      let body ← block fuel ["end"]
      return .branch .whileStatement
        (opening :: condition :: loop :: blockOf (some .body) body ++ [← keyword "end" .plain])
    | .word, "repeat" =>
      let opening ← keyword "repeat" .plain
      let body ← block fuel ["until"]
      return .branch .repeatStatement
        (opening :: blockOf (some .body) body ++
          [← keyword "until" .operand, ← expression fuel 0])
    | .word, "if" =>
      let opening ← keyword "if" .operand
      let condition ← expression fuel 0
      let branch ← keyword "then" .plain
      let body ← block fuel ["elseif", "else", "end"]
      return .branch .ifStatement
        (opening :: condition :: branch :: blockOf none body ++ (← alternatives fuel))
    | .word, "for" => forLoop fuel
    | .word, "function" =>
      let opening ← keyword "function" .plain
      let path ← functionPath fuel (← name .plain)
      return .branch .functionDeclaration (opening :: path.inPlace .name :: (← functionBody fuel))
    | .word, "local" =>
      let scope ← keyword "local" .plain
      if ← atWord "function" then scopedFunction fuel scope
      else declaration fuel scope (← attrib?)
    | .word, "global" =>
      let scope ← keyword "global" .callee
      if ← atWord "function" then scopedFunction fuel scope
      else if (← peek).shape = .word || (← atSymbol "<") || (← atSymbol "*") then
        globalDeclaration fuel scope
      else assignmentOrCall fuel (← suffixes fuel scope)
    | _, _ => assignmentOrCall fuel (← suffixes fuel (← primary fuel))

/-- The branches behind the first one of an `if`, with its `end`. -/
def alternatives : Nat → Parse (List Node)
  | 0 => failure
  | fuel + 1 => do
    let t ← peek
    if isWord t "elseif" then
      let opening ← keyword "elseif" .operand
      let condition ← expression fuel 0
      let branch ← keyword "then" .plain
      let body ← block fuel ["elseif", "else", "end"]
      return .branch .elseifStatement (opening :: condition :: branch :: blockOf none body) ::
        (← alternatives fuel)
    else if isWord t "else" then
      let opening ← keyword "else" .plain
      let body ← block fuel ["end"]
      return [.branch .elseStatement (opening :: blockOf (some .body) body),
        ← keyword "end" .plain]
    else return [← keyword "end" .plain]

def forLoop : Nat → Parse Node
  | 0 => failure
  | fuel + 1 => do
    let opening ← keyword "for" .plain
    let names ← commaList .plain (name .plain) fuel
    let clause ←
      match names, ← atSymbol "=" with
      | [control], true =>
        let equals ← symbol "=" .operand
        let start ← expression fuel 0
        let comma ← symbol "," .operand
        let stop ← expression fuel 0
        let step ←
          if ← atSymbol "," then pure [← symbol "," .operand, ← expression fuel 0] else pure []
        pure (Node.branch .forNumericClause
          (control.inPlace .name :: equals :: start :: comma :: stop :: step))
      | _, _ =>
        pure (Node.branch .forGenericClause
          [.branch .variableList (names.map (·.inPlace .name)), ← keyword "in" .operand,
            ← expressionList fuel])
    let loop ← keyword "do" .plain
    let body ← block fuel ["end"]
    return .branch .forStatement
      (opening :: clause :: loop :: blockOf (some .body) body ++ [← keyword "end" .plain])

/-- A function behind `local` or `global`. -/
def scopedFunction : Nat → Node → Parse Node
  | 0, _ => failure
  | fuel + 1, scope => do
    let opening ← keyword "function" .plain
    let n ← name .plain
    return .branch .functionDeclaration
      (scope :: opening :: n.inPlace .name :: (← functionBody fuel))

/-- The variables behind `local` or `global` and an attribute. -/
def declaration : Nat → Node → List Node → Parse Node
  | 0, _, _ => failure
  | fuel + 1, scope, leading => do
    let names := Node.branch .variableList (leading ++ (← attributedNames fuel))
    if ← atSymbol "=" then
      let equals ← symbol "=" .operand
      let values ← expressionList fuel
      return .branch .variableDeclaration
        [scope, .branch .assignmentStatement [names, equals, values]]
    else return .branch .variableDeclaration [scope, names]

/-- Variables, or all of them with `*`. -/
def globalDeclaration : Nat → Node → Parse Node
  | 0, _ => failure
  | fuel + 1, scope => do
    let leading ← attrib?
    if ← atSymbol "*" then
      return .branch .implicitVariableDeclaration (scope :: leading ++ [← symbol "*" .plain])
    else declaration fuel scope leading

/-- A statement that starts with an expression. -/
def assignmentOrCall : Nat → Node → Parse Node
  | 0, _ => failure
  | fuel + 1, first => do
    if first.kind = .functionCall then
      if (← atSymbol "=") || (← atSymbol ",") then failure else return first
    else if isVariable first then
      let others ←
        if ← atSymbol "," then
          let comma ← symbol "," .plain
          pure (comma :: (← commaList .plain (target fuel) fuel))
        else pure []
      let equals ← symbol "=" .operand
      let values ← expressionList fuel
      return .branch .assignmentStatement [.branch .variableList (first :: others), equals, values]
    else failure

/-- A further target of an assignment. -/
def target : Nat → Parse Node
  | 0 => failure
  | fuel + 1 => do
    let n ← suffixes fuel (← primary fuel)
    if isVariable n then return n else failure
end

/-- A whole source. No word ends it. -/
def chunk (fuel : Nat) : Parse Node := do
  let ss ← statements fuel [] []
  if (← peek).shape = .finish then return .branch .chunk ss else failure

end Parse

/-- Between two tokens the grammar nests at most this many steps. -/
def stepsPerToken : Nat := 16

/-- The tree of a source that the grammar accepts. -/
def parse? (text : String) : Option Node := do
  let source := Token.Cursor.ofText text
  let (first, rest) ← Token.next? .start source
  let (root, _) ← (Parse.chunk (stepsPerToken * (source.size + 2))).run ⟨first, rest⟩
  return root

/-- Why a source is refused. -/
inductive Refusal where
  | malformed
  | tooNew (fault : Fault)
  deriving DecidableEq, Repr

/-- The tree of a source that the dialect accepts. -/
def load (v : LuaVersion) (text : String) : Except Refusal Node :=
  match parse? text with
  | none => .error .malformed
  | some root =>
    match root.gate? v with
    | some fault => .error (.tooNew fault)
    | none => .ok root

end LuaSymbols.Lua
