import LuaSymbols.Json.Reader
import LuaSymbols.Text.Encoding
import LuaSymbols.Validation

/-!
# Requests and responses

What a client sends and what it gets. The body of a request is JSON. A body that is
no JSON keeps the position at which that shows; one that is no text, or goes over a
limit of the reader, is unreadable.
-/

namespace LuaSymbols.Service

inductive Body where
  | absent
  | malformed (position : Nat)
  | unreadable
  | value (j : Json)
  deriving Repr

/-- How many arrays and objects of a body may stand in one another. -/
def maxBodyDepth : Nat := 950

/-- The body that some bytes are. No bytes are none. -/
def Body.ofBytes (bytes : List UInt8) : Body :=
  if bytes = [] then .absent
  else
    match Encoding.decode? bytes with
    | none => .unreadable
    | some text =>
      match Json.parseWithin maxBodyDepth text with
      | .ok j => .value j
      | .error (.malformed p) => .malformed p
      | .error _ => .unreadable

/-- The body that a text is when it is sent as UTF-8. -/
def Body.ofText (text : String) : Body := .ofBytes (Utf8.encode text.toList)

structure Request where
  method : String
  path : String
  body : Body := .absent
  deriving Repr

/-- The method in capital letters. -/
def Request.verb (r : Request) : String := String.ofList (r.method.toList.map Char.toUpper)

structure Response where
  status : Nat
  body : Json
  deriving Repr

namespace Response

def ok (body : Json) : Response := ⟨200, body⟩

def detail (status : Nat) (message : String) : Response :=
  ⟨status, .object [("detail", .string message)]⟩

def notFound : Response := detail 404 "Not Found"

def methodNotAllowed : Response := detail 405 "Method Not Allowed"

def unreadable : Response := detail 400 "There was an error parsing the body"

/-- The answer to a request that a failure ended. -/
def failed : Response :=
  ⟨500, .object [("error", .string "Internal server error"),
    ("message", .string "An unexpected error occurred")]⟩

/-- The answer to a request with issues. It quotes the refused values, so it fails if
one of them cannot be written. -/
def invalid (issues : List Issue) : Response :=
  if issues.all (·.isWritable) then
    ⟨422, .object [("detail", .array (issues.map Issue.toJson))]⟩
  else failed

end Response

/-- What a body was found to be, or the answer that lists its issues. -/
def Body.settle {α : Type} (c : Checked α) : Except Response α :=
  match c.under (.key "body") with
  | .valid a => .ok a
  | .invalid issues => .error (.invalid issues)

/-- Decodes the body of a request that needs one, or gives the answer without it. -/
def Body.decode {α : Type} (d : Json.Fields → Checked α) : Body → Except Response α
  | .unreadable => .error .unreadable
  | .absent => settle (.refuse .missing .null)
  | .malformed p => settle ((Checked.refuse .malformedJson .null).under (.index p))
  | .value (.object fields) => settle (d fields)
  | .value j => settle (.refuse .bodyNotObject j)

/-! ## Bodies of requests -/

open Json (nonEmptyText natural nullable)
open Json.Fields (required withDefault)

/-- A document with its full text. -/
structure TextRequest where
  uri : String
  text : String
  deriving DecidableEq, Repr

structure SaveRequest where
  uri : String
  text : Option String
  deriving DecidableEq, Repr

structure UriRequest where
  uri : String
  deriving DecidableEq, Repr

structure DefinitionRequest where
  uri : String
  line : Nat
  character : Nat
  deriving DecidableEq, Repr

def TextRequest.ofFields (fs : Json.Fields) : Checked TextRequest :=
  TextRequest.mk <$> required fs "uri" nonEmptyText <*> required fs "text" Json.text

def TextRequest.toJson (r : TextRequest) : Json :=
  .object [("uri", .string r.uri), ("text", .string r.text)]

def SaveRequest.ofFields (fs : Json.Fields) : Checked SaveRequest :=
  SaveRequest.mk <$> required fs "uri" nonEmptyText <*>
    withDefault fs "text" none (nullable Json.text)

def SaveRequest.toJson (r : SaveRequest) : Json :=
  .object [("uri", .string r.uri), ("text", r.text.elim .null .string)]

def UriRequest.ofFields (fs : Json.Fields) : Checked UriRequest :=
  UriRequest.mk <$> required fs "uri" nonEmptyText

def UriRequest.toJson (r : UriRequest) : Json := .object [("uri", .string r.uri)]

def DefinitionRequest.ofFields (fs : Json.Fields) : Checked DefinitionRequest :=
  DefinitionRequest.mk <$> required fs "uri" nonEmptyText <*> required fs "line" natural <*>
    required fs "character" natural

def DefinitionRequest.toJson (r : DefinitionRequest) : Json :=
  .object [("uri", .string r.uri), ("line", .nat r.line), ("character", .nat r.character)]

end LuaSymbols.Service
