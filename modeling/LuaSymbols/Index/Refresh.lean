import LuaSymbols.Index.Module

/-!
# Keeping records in step

`ensureIndexed` makes the record of a file that has none, and with it those of
the files it imports. A record is registered before its text is walked, so a file
that an import cycle leads back to is met as known. `refresh` walks the text of a
dirty file again.
-/

namespace LuaSymbols.Index

/-- Makes an import of `key` known and adds the edge to it. -/
def link (visit : Index → String → Index) (key : String) (s : Index) (dep : String) : Index :=
  (visit s dep).addImport key dep

/-- What an event in the walk of `key` does: an include call is followed at once, all
else is noted in the record. -/
def report (d : Disk) (visit : Index → String → Index) (key : String) (s : Index) :
    Event → Index
  | .includeCall reference dotted =>
    ((s.find d (some key) reference dotted).map (Uri.ofPath d.cwd)).foldl (link visit key) s
  | e => s.modify key (·.mapBindings (·.note e))

/-- Fills the record of a file from its current text, event by event. A walk that goes
too deep leaves no bindings; a text that gives no walk changes nothing. -/
def fill (d : Disk) (visit : Index → String → Index) (s : Index) (key : String) : Index :=
  match s.trace? d key with
  | .ok (some t) =>
    let walked := t.reached.foldl (report d visit key) (s.modify key (·.reset))
    if t.isComplete then walked else walked.modify key (·.reset)
  | _ => s

/-- Makes the record of a key that has none, following imports. `fuel` bounds the
length of a chain of imports of unknown files. -/
def visit (d : Disk) : Nat → Index → String → Index
  | 0, s, _ => s
  | fuel + 1, s, key =>
    if s.files.has key then s else fill d (visit d fuel) (s.register key) key

/-- More than the keys that files on the disk can have: a path to a file starts
with one slash or with two. -/
def chainBound (d : Disk) : Nat := 2 * d.entries.length + 2

/-- The failure that walking a file meets. -/
def failure? (s : Index) (d : Disk) (key : String) : Option Disk.AccessError :=
  match s.trace? d key with
  | .error e => some e
  | .ok _ => none

/-- The outcome of an operation that was to bring a record in step. -/
def settle (d : Disk) (key : String) (before after : Index) : Outcome FileRecord :=
  match before.failure? d key with
  | some e => ⟨.error e, after⟩
  | none => .pure ((after.files.get? key).getD { uri := key }) after

/-- The record of a file, made if there is none. -/
def ensureIndexed (s : Index) (d : Disk) (uri : String) : Outcome FileRecord :=
  let key := Uri.normalize uri
  match s.files.get? key with
  | some r => .pure r s
  | none => settle d key s (visit d (chainBound d) s key)

/-- Marks a file as edited. A file that has no record gets one first. -/
def markDirty (s : Index) (d : Disk) (uri : String) : Outcome FileRecord :=
  (s.ensureIndexed d uri).andThen fun r s =>
    .pure { r with dirty := true } (s.modify (Uri.normalize uri) ({ · with dirty := true }))

/-- Walks the text of a dirty file again. -/
def reindex (s : Index) (d : Disk) (key : String) : Outcome FileRecord :=
  settle d key s
    (fill d (visit d (chainBound d)) (s.modify key ({ · with dirty := false })) key)

/-- Brings a record in step with the current text: made if there is none, made
again if it is dirty. -/
def refresh (s : Index) (d : Disk) (uri : String) : Outcome FileRecord :=
  let key := Uri.normalize uri
  match s.files.get? key with
  | none => s.ensureIndexed d key
  | some r => if r.dirty then s.reindex d key else .pure r s

def outline (s : Index) (d : Disk) (uri : String) : Outcome (List OutlineSymbol) :=
  (s.refresh d uri).map (·.outline)

/-- Adds an import edge to the record of the importing file, if there is one. -/
def linkParent (s : Index) (parent : Option String) (dependency : String) : Index :=
  match parent with
  | some uri => s.addImport (Uri.normalize uri) dependency
  | none => s

/-- Indexes a file on disk and links it to the file that imports it. -/
def indexDependency (s : Index) (d : Disk) (parent : Option String) (path : String)
    (isGlobal : Bool) : Outcome String :=
  let uri := Uri.ofPath d.cwd path
  (s.ensureIndexed d uri).andThen fun _ s =>
    let linked := s.linkParent parent uri
    .pure uri (if isGlobal then linked.addGlobal uri else linked)

/-- Indexes files on disk in turn. -/
def indexAll (d : Disk) (parent : Option String) (isGlobal : Bool) :
    List String → Index → Outcome (List String)
  | [], s => .pure [] s
  | path :: rest, s =>
    (s.indexDependency d parent path isGlobal).andThen fun uri s =>
      (indexAll d parent isGlobal rest s).map (uri :: ·)

/-- Finds the files of a module and indexes them as imports of `importer`. -/
def resolve (s : Index) (d : Disk) (importer : Option String) (reference : String)
    (dotted : Bool) : Outcome (List String) :=
  let paths := s.find d importer reference dotted
  (indexAll d importer false paths s).map fun _ => paths

end LuaSymbols.Index
