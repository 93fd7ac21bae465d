import LuaSymbols.Record
import LuaSymbols.Validation

/-!
# Records as JSON

Each part of a record has a decoder (`ofJson`) and the form in which it is sent
(`toJson`). Fields that a part does not have are ignored.
-/

namespace LuaSymbols

open Json (model listOf nullable text natural boolean)
open Json.Fields (required withDefault)

def Json.ofOption {α : Type} (f : α → Json) : Option α → Json
  | some a => f a
  | none => .null

/-! ## Places -/

def Position.ofJson : Json → Checked Position :=
  model "Position" fun fs =>
    Position.mk <$> required fs "line" natural <*> required fs "character" natural

def Position.toJson (p : Position) : Json :=
  .object [("line", .nat p.line), ("character", .nat p.character)]

def Range.ofJson : Json → Checked Range :=
  model "Range" fun fs =>
    Range.mk <$> required fs "start" Position.ofJson <*> required fs "end" Position.ofJson

def Range.toJson (r : Range) : Json :=
  .object [("start", r.start.toJson), ("end", r.stop.toJson)]

/-! ## Entries -/

def Occurrence.ofJson : Json → Checked Occurrence :=
  model "IdentifierOccurrence" fun fs =>
    Occurrence.mk <$> required fs "name" text <*> withDefault fs "base" none (nullable text) <*>
      required fs "range" Range.ofJson

def Occurrence.toJson (o : Occurrence) : Json :=
  .object [("name", .string o.name), ("base", .ofOption .string o.base), ("range", o.range.toJson)]

def Declaration.ofJson : Json → Checked Declaration :=
  model "Declaration" fun fs =>
    Declaration.mk <$> required fs "label" text <*> required fs "range" Range.ofJson <*>
      required fs "uri" text

def Declaration.toJson (d : Declaration) : Json :=
  .object [("label", .string d.label), ("range", d.range.toJson), ("uri", .string d.uri)]

def Assignment.ofJson : Json → Checked Assignment :=
  model "Assignment" fun fs =>
    Assignment.mk <$> required fs "label" text <*> withDefault fs "base" none (nullable text) <*>
      required fs "range" Range.ofJson <*> required fs "uri" text

def Assignment.toJson (a : Assignment) : Json :=
  .object [("label", .string a.label), ("base", .ofOption .string a.base),
    ("range", a.range.toJson), ("uri", .string a.uri)]

def FunctionDeclaration.ofJson : Json → Checked FunctionDeclaration :=
  model "FunctionDeclaration" fun fs =>
    FunctionDeclaration.mk <$> required fs "label" text <*>
      withDefault fs "base" none (nullable text) <*> required fs "range" Range.ofJson <*>
      required fs "uri" text <*> withDefault fs "is_local" false boolean

def FunctionDeclaration.toJson (f : FunctionDeclaration) : Json :=
  .object [("label", .string f.label), ("base", .ofOption .string f.base),
    ("range", f.range.toJson), ("uri", .string f.uri), ("is_local", .bool f.isLocal)]

def SymbolKind.ofJson (j : Json) : Checked SymbolKind :=
  j.text.andThen fun s => (ofName? s).elim (.refuse .unknownSymbolKind j) .valid

def OutlineSymbol.ofJson : Json → Checked OutlineSymbol :=
  model "OutlineSymbol" fun fs =>
    OutlineSymbol.mk <$> required fs "label" text <*>
      withDefault fs "kind" .function SymbolKind.ofJson <*> required fs "range" Range.ofJson <*>
      required fs "uri" text

def OutlineSymbol.toJson (s : OutlineSymbol) : Json :=
  .object [("label", .string s.label), ("kind", .string s.kind.name), ("range", s.range.toJson),
    ("uri", .string s.uri)]

def Location.ofJson : Json → Checked Location :=
  model "DefinitionLocation" fun fs =>
    Location.mk <$> required fs "label" text <*> required fs "uri" text <*>
      required fs "range" Range.ofJson

def Location.toJson (l : Location) : Json :=
  .object [("label", .string l.label), ("uri", .string l.uri), ("range", l.range.toJson)]

/-! ## Whole records -/

def FileRecord.assemble (uri : String) (dirty : Bool) (dependencies : List String)
    (identifiers : List Occurrence) (locals parameters : List Declaration)
    (assignments : List Assignment) (functions : List FunctionDeclaration)
    (outline : List OutlineSymbol) : FileRecord :=
  { uri, dirty, dependencies, identifiers, locals, parameters, assignments, functions, outline }

def FileRecord.ofJson : Json → Checked FileRecord :=
  model "SourceFile" fun fs =>
    FileRecord.assemble <$> required fs "uri" text <*> withDefault fs "dirty" false boolean <*>
      withDefault fs "dependencies" [] (listOf text) <*>
      withDefault fs "identifiers" [] (listOf Occurrence.ofJson) <*>
      withDefault fs "locals" [] (listOf Declaration.ofJson) <*>
      withDefault fs "parameters" [] (listOf Declaration.ofJson) <*>
      withDefault fs "assignments" [] (listOf Assignment.ofJson) <*>
      withDefault fs "functions" [] (listOf FunctionDeclaration.ofJson) <*>
      withDefault fs "outline" [] (listOf OutlineSymbol.ofJson)

def FileRecord.toJson (r : FileRecord) : Json :=
  .object [("uri", .string r.uri), ("dirty", .bool r.dirty),
    ("dependencies", .strings r.dependencies),
    ("identifiers", .array (r.identifiers.map Occurrence.toJson)),
    ("locals", .array (r.locals.map Declaration.toJson)),
    ("parameters", .array (r.parameters.map Declaration.toJson)),
    ("assignments", .array (r.assignments.map Assignment.toJson)),
    ("functions", .array (r.functions.map FunctionDeclaration.toJson)),
    ("outline", .array (r.outline.map OutlineSymbol.toJson))]

end LuaSymbols
