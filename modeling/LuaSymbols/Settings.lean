import LuaSymbols.Config
import LuaSymbols.Disk
import LuaSymbols.Settings.EnvFile
import LuaSymbols.Text.Basic

/-!
# Settings

What the environment says about a run. Variables are named like the fields, in
any letter case. Two files can add to them: the one that `ENV_FILE` names, or else
`.env`, adds variables to the environment; `.env` also serves the fields that the
environment leaves open. In a value of the first file the variables of the environment
count before those of the file, in a value of the second it is the other way round.
-/

namespace LuaSymbols

/-- The items of a list setting, without blank ones. -/
def settingItems (separator : List Char) (value : String) : List String :=
  cleanEntries ((pieces separator value.toList).map String.ofList)

/-- The items of a list setting; none for an empty separator, unless there is
nothing to split. -/
def splitSetting? (value separator : String) : Option (List String) :=
  if value = "" then some []
  else if separator = "" then none
  else some (settingItems separator.toList value)

structure Settings where
  appName : String
  appVersion : String
  debug : Bool
  host : String
  port : Int
  workspaceRoot : String
  globalScriptPatterns : String
  luaSearchPaths : String
  luaIncludeKeywords : String
  luaVersion : LuaVersion
  resolveFunctions : Bool
  corsOrigins : String
  deriving DecidableEq, Repr

namespace Settings

def searchPaths (s : Settings) : List String := settingItems [';'] s.luaSearchPaths

def includeKeywords (s : Settings) : List String := settingItems [','] s.luaIncludeKeywords

def globalPatterns (s : Settings) : List String := settingItems [';'] s.globalScriptPatterns

/-- The origins that may call; all of them if none is named. -/
def corsOriginList (s : Settings) : List String :=
  match settingItems [','] s.corsOrigins with
  | [] => ["*"]
  | origins => origins

def toConfig (s : Settings) : Config :=
  .clean s.searchPaths s.includeKeywords s.luaVersion s.resolveFunctions

/-! ## Environments -/

/-- The small letter of a letter, as far as names of fields can have it: the Kelvin sign
is the one character outside ASCII whose small letter is in it. -/
def smallLetter (c : Char) : Char := if c = '\u212A' then 'k' else c.toLower

def lowerCase (s : String) : String := String.ofList (s.toList.map smallLetter)

def readFile (d : Disk) (path : String) : List EnvFile.Binding :=
  match d.readText path with
  | .ok text => EnvFile.bindings text
  | .error _ => []

def localFile : String := ".env"

/-- The file whose variables are added to the environment. -/
def addedFile (d : Disk) (env : Environment) : String :=
  match env.get? "ENV_FILE" with
  | some path => if path ≠ "" ∧ d.exists? path.toList then path else localFile
  | none => localFile

/-- Adds the variables of a file whose exact names are not set. -/
def extend (env : Environment) (file : List EnvFile.Binding) : Environment :=
  (EnvFile.resolve .environment env file).foldl
    (fun t (k, v) => if t.has k then t else v.elim t (t.set k)) env

/-- The value of the last variable with the name of a field, in any letter case. -/
def lookup? {α : Type} (t : Table α) (field : String) : Option α :=
  ((t.filter fun (k, _) => lowerCase k = field).getLast?).map Prod.snd

/-- The fields that the variables set, as JSON texts for the decoders. -/
def fieldsOf (env : Environment) (file : Table (Option String)) (names : List String) :
    Json.Fields :=
  names.filterMap fun name =>
    ((lookup? env name).or (lookup? file name).join).map fun v => (name, .string v)

def fieldNames : List String :=
  ["app_name", "app_version", "debug", "host", "port", "workspace_root", "global_script_patterns",
    "lua_search_paths", "lua_include_keywords", "lua_version", "resolve_function_declarations",
    "cors_origins"]

open Json (text boolean integer version)
open Json.Fields (withDefault) in
def ofFields (cwd : String) (fs : Json.Fields) : Checked Settings :=
  Settings.mk <$> withDefault fs "app_name" "Lua Code Index" text <*>
    withDefault fs "app_version" "0.1.0" text <*> withDefault fs "debug" false boolean <*>
    withDefault fs "host" "127.0.0.1" text <*> withDefault fs "port" 8080 integer <*>
    withDefault fs "workspace_root" cwd text <*>
    withDefault fs "global_script_patterns" "Scripts/*.lua;../_fallback/Scripts/*.lua" text <*>
    withDefault fs "lua_search_paths" "" text <*> withDefault fs "lua_include_keywords" "" text <*>
    withDefault fs "lua_version" .lua51 version <*>
    withDefault fs "resolve_function_declarations" false boolean <*>
    withDefault fs "cors_origins" "*" text

/-- The settings of a run in an environment, with the files of the disk. -/
def read (d : Disk) (env : Environment) : Checked Settings :=
  let full := extend env (readFile d (addedFile d env))
  ofFields d.cwd (fieldsOf full (EnvFile.resolve .file full (readFile d localFile)) fieldNames)

def toJson (s : Settings) : Json :=
  .object [("app_name", .string s.appName), ("app_version", .string s.appVersion),
    ("debug", .bool s.debug), ("host", .string s.host), ("port", .int s.port),
    ("workspace_root", .string s.workspaceRoot),
    ("global_script_patterns", .string s.globalScriptPatterns),
    ("lua_search_paths", .string s.luaSearchPaths),
    ("lua_include_keywords", .string s.luaIncludeKeywords),
    ("lua_version", .string s.luaVersion.name),
    ("resolve_function_declarations", .bool s.resolveFunctions),
    ("cors_origins", .string s.corsOrigins)]

end Settings

end LuaSymbols
