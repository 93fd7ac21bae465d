import LuaSymbols.Index.Definition
import LuaSymbols.Index.Scan
import LuaSymbols.Record.Json
import LuaSymbols.Service.Message
import LuaSymbols.Service.Route
import LuaSymbols.Settings

/-!
# The service

`handle` answers one request on an index and gives the index after it. Clients
tell of documents they open, change, save and close, ask for definitions and
outlines, and read or replace the configuration.
-/

namespace LuaSymbols.Service

def title : String := "Lua Code Index"

def version : String := "0.1.0"

def description : String :=
  "Symbol indexing, go-to-definition and document outline for Lua workspaces"

/-! ## Views of an index -/

/-- The state of one document. -/
def documentStatus (s : Index) (uri : String) : Json :=
  let record := s.get? uri
  .object [("uri", .string (Uri.normalize uri)), ("open", .bool (s.isOpen uri)),
    ("dirty", .bool (record.elim false (·.dirty))),
    ("dependencies", .strings (record.elim [] (·.dependencies))),
    ("outline_count", .nat (record.elim 0 (·.outline.length)))]

def fileSummary (s : Index) (r : FileRecord) : Json :=
  .object [("uri", .string r.uri), ("dirty", .bool r.dirty),
    ("is_global", .bool (r.uri ∈ s.globals)), ("dependencies", .strings r.dependencies),
    ("identifier_count", .nat r.identifiers.length), ("local_count", .nat r.locals.length),
    ("parameter_count", .nat r.parameters.length),
    ("assignment_count", .nat r.assignments.length),
    ("function_count", .nat r.functions.length)]

/-- The records in the order of their keys. -/
def sortedFiles (s : Index) : List FileRecord :=
  (s.files.mergeSort fun a b => a.1 ≤ b.1).map Prod.snd

def rootView : Json :=
  .object [("name", .string title), ("version", .string version),
    ("description", .string description), ("docs", .string "/docs"),
    ("health", .string "/health"), ("status", .string "operational")]

def healthView : Json :=
  .object [("status", .string "healthy"), ("version", .string version),
    ("checks", .object [("api", .string "healthy")])]

def readyView (s : Index) : Json :=
  .object [("status", .string "ready"), ("indexed_files", .nat s.files.length),
    ("global_files", .nat s.globals.length), ("open_documents", .nat s.buffers.length),
    ("lua_version", .string s.config.version.name)]

/-! ## Requests that change documents -/

/-- Stores the text and indexes it; a file that was known is indexed anew. -/
def openDocument (d : Disk) (s : Index) (r : TextRequest) : Outcome Json :=
  let key := Uri.normalize r.uri
  let s := s.openDocument r.uri r.text
  (if (s.get? key).isNone then s.ensureIndexed d key
    else (s.markDirty d key).andThen fun _ s => s.refresh d key).andThen fun _ s =>
      .pure (documentStatus s key) s

/-- Stores the text and leaves indexing to the next query. -/
def changeDocument (d : Disk) (s : Index) (r : TextRequest) : Outcome Json :=
  let key := Uri.normalize r.uri
  ((s.openDocument r.uri r.text).markDirty d key).andThen fun _ s =>
    .pure (documentStatus s key) s

/-- Stores the text of a save if it differs from the current one. -/
def storeSaved (d : Disk) (s : Index) (key : String) (current text : Option String) :
    Outcome Unit :=
  match text with
  | none => .pure () s
  | some t =>
    if current = some t then .pure () s
    else
      let s := s.openDocument key t
      if (s.get? key).isSome then (s.markDirty d key).map fun _ => () else .pure () s

/-- Indexes a saved document if it changed. A text that cannot be read counts as
none. -/
def saveDocument (d : Disk) (s : Index) (r : SaveRequest) : Outcome Json :=
  let key := Uri.normalize r.uri
  match s.text d key with
  | .error .embeddedNul => ⟨.error .embeddedNul, s⟩
  | current =>
    (storeSaved d s key (current.toOption.bind id) r.text).andThen fun _ s =>
      (s.refresh d key).andThen fun _ s => .pure (documentStatus s key) s

/-- Drops the text of a document; its record stays. -/
def closeDocument (s : Index) (r : UriRequest) : Response × Index :=
  if s.isOpen r.uri then
    let s := s.closeDocument r.uri
    (.ok (documentStatus s r.uri), s)
  else (.detail 404 ("Document not open: " ++ r.uri), s)

/-! ## Answering -/

def respond (o : Outcome Json) : Response × Index :=
  match o.result with
  | .ok body => (.ok body, o.index)
  | .error _ => (.failed, o.index)

/-- Runs an action on the decoded body of a request. -/
def withBody {α : Type} (s : Index) (b : Body) (decode : Json.Fields → Checked α)
    (act : α → Response × Index) : Response × Index :=
  match b.decode decode with
  | .ok a => act a
  | .error response => (response, s)

/-- Answers a request whose method the route takes. -/
def answer (d : Disk) (s : Index) (method : String) (b : Body) : Route → Response × Index
  | .root => (.ok rootView, s)
  | .health => (.ok healthView, s)
  | .ready => (.ok (readyView s), s)
  | .openDocument => withBody s b TextRequest.ofFields fun r => respond (openDocument d s r)
  | .changeDocument => withBody s b TextRequest.ofFields fun r => respond (changeDocument d s r)
  | .saveDocument => withBody s b SaveRequest.ofFields fun r => respond (saveDocument d s r)
  | .closeDocument => withBody s b UriRequest.ofFields fun r => closeDocument s r
  | .definition =>
    withBody s b DefinitionRequest.ofFields fun r =>
      respond ((s.definition d r.uri r.line r.character).map fun ls =>
        .array (ls.map Location.toJson))
  | .outline =>
    withBody s b UriRequest.ofFields fun r =>
      respond ((s.outline d r.uri).map fun symbols => .array (symbols.map OutlineSymbol.toJson))
  | .files => (.ok (.array ((sortedFiles s).map (fileSummary s))), s)
  | .globals => (.ok (.strings s.globals), s)
  | .configuration =>
    if method = "PUT" then
      withBody s b Config.ofFields fun c => (.ok c.toJson, s.configure c)
    else (.ok s.config.toJson, s)

/-- Finds the route of a request and answers it there. -/
def dispatch (d : Disk) (s : Index) (r : Request) : Response × Index :=
  match Route.find? (Route.pathOf r.path) with
  | none => (.notFound, s)
  | some route =>
    if r.verb ∈ route.methods then answer d s r.verb r.body route
    else (.methodNotAllowed, s)

/-- Answers a request. The answer to `HEAD` has no body. -/
def handle (d : Disk) (s : Index) (r : Request) : Response × Index :=
  let (response, s) := dispatch d s r
  (if r.verb = "HEAD" then { response with body := .null } else response, s)

/-- The index at the start of a run: built from the settings, with the global
files of the workspace. -/
def start (d : Disk) (settings : Settings) : Outcome (List String) :=
  let s := Index.create d.cwd settings.workspaceRoot settings.toConfig
  s.scan d s.root settings.globalPatterns

end LuaSymbols.Service
