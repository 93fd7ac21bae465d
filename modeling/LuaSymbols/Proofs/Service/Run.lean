import Mathlib
import LuaSymbols.Proofs.Index.Moves
import LuaSymbols.Service

/-!
# Runs of the service

A run starts with an empty index and takes any actions in any order: requests, scans
for global files and the operations of the index itself. The disk is another one at
every action, so files may change in between. `Reachable` are the indexes that runs
lead to. Each action is made of moves (`moves_run`), so what holds at first and is
kept by every move is known of all of them (`Reachable.invariant`).
-/

namespace LuaSymbols.Service

open Index (Move Moves)

/-! ## Requests -/

section
variable (d : Disk) (s : Index)

/-- Storing a text and marking its file as edited. -/
theorem moves_store (uri text : String) :
    Moves d s ((s.openDocument uri text).markDirty d uri).index := by
  cases h : s.files.get? (Uri.normalize uri) with
  | none =>
    refine Moves.andThen ?_ fun _ _ => .single (.mark _ uri)
    rw [Index.ensureIndexed_of_unknown (s := s.openDocument uri text) h, Index.index_settle]
    exact .single (.storeNew text h)
  | some r =>
    rw [Index.markDirty, Index.ensureIndexed_of_known (s := s.openDocument uri text) h]
    exact .single (.store text (by simp [h]))

theorem moves_openDocument (r : TextRequest) : Moves d s (openDocument d s r).index := by
  have hstore := moves_store d s (Uri.normalize r.uri) r.text
  rw [Index.openDocument_normalize] at hstore
  refine Moves.andThen ?_ fun _ _ => .refl
  split
  · next h =>
    have hnone : s.files.get? (Uri.normalize r.uri) = none := by simpa [Index.get?] using h
    rw [Index.ensureIndexed_of_unknown (by simpa using hnone), Index.index_settle,
      Uri.normalize_normalize]
    exact .single (.storeNew r.text hnone)
  · exact hstore.andThen fun _ _ => Index.moves_refresh d _ _

theorem moves_changeDocument (r : TextRequest) : Moves d s (changeDocument d s r).index := by
  have hstore := moves_store d s (Uri.normalize r.uri) r.text
  rw [Index.openDocument_normalize] at hstore
  exact hstore.andThen fun _ _ => .refl

/-- Storing the text of a save is a move together with bringing the record in step. -/
theorem moves_storeSaved (uri : String) (current text : Option String) :
    Moves d s ((storeSaved d s uri current text).andThen fun _ s => s.refresh d uri).index := by
  cases text with
  | none => exact Index.moves_refresh d s uri
  | some t =>
    rw [storeSaved]
    split
    · exact Index.moves_refresh d s uri
    dsimp only
    split
    · exact ((moves_store d s uri t).map).andThen fun _ _ => Index.moves_refresh d _ uri
    · next h =>
      have hnone : s.files.get? (Uri.normalize uri) = none := by simpa [Index.get?] using h
      rw [Index.pure_andThen, Index.refresh_of_unknown (by simpa using hnone),
        Index.ensureIndexed_of_unknown (by simpa using hnone), Index.index_settle]
      exact .single (.storeNew t hnone)

theorem moves_saveDocument (r : SaveRequest) : Moves d s (saveDocument d s r).index := by
  unfold saveDocument
  dsimp only
  split
  · exact .refl
  · rw [← Index.andThen_assoc]
    exact (moves_storeSaved d s _ _ _).andThen fun _ _ => .refl

theorem moves_closeDocument (r : UriRequest) : Moves d s (closeDocument s r).2 := by
  unfold closeDocument
  split
  · exact .single (.close s r.uri)
  · exact .refl

theorem moves_withBody {α : Type} {b : Body} {decode : Json.Fields → Checked α}
    {act : α → Response × Index} (h : ∀ a, Moves d s (act a).2) :
    Moves d s (withBody s b decode act).2 := by
  unfold withBody
  split
  · exact h _
  · exact .refl

theorem index_respond (o : Outcome Json) : (respond o).2 = o.index := by
  unfold respond
  split <;> rfl

theorem moves_answer (method : String) (b : Body) (route : Route) :
    Moves d s (answer d s method b route).2 := by
  cases route with
  | openDocument =>
    exact moves_withBody d s fun r => (index_respond _).symm ▸ moves_openDocument d s r
  | changeDocument =>
    exact moves_withBody d s fun r => (index_respond _).symm ▸ moves_changeDocument d s r
  | saveDocument =>
    exact moves_withBody d s fun r => (index_respond _).symm ▸ moves_saveDocument d s r
  | closeDocument => exact moves_withBody d s fun r => moves_closeDocument d s r
  | definition =>
    exact moves_withBody d s fun r => (index_respond _).symm ▸
      (Index.moves_definition d s r.uri r.line r.character).map
  | outline =>
    exact moves_withBody d s fun r => (index_respond _).symm ▸ (Index.moves_outline d s r.uri).map
  | configuration =>
    rw [answer]
    split
    · exact moves_withBody d s fun c => .single (.configure s c)
    · exact .refl
  | root | health | ready | files | globals => exact .refl

theorem index_handle (r : Request) : (handle d s r).2 = (dispatch d s r).2 := by
  rw [handle]

/-- Leaving out the body of an answer leaves its status. -/
theorem status_handle_eq_dispatch (r : Request) :
    (handle d s r).1.status = (dispatch d s r).1.status := by
  rw [handle]
  generalize dispatch d s r = answered
  dsimp only
  split <;> rfl

theorem moves_handle (r : Request) : Moves d s (handle d s r).2 := by
  rw [index_handle, dispatch]
  split
  · exact .refl
  · split
    · exact moves_answer d s _ _ _
    · exact .refl

end

/-! ## Actions -/

/-- What can be done with an index: a request to the service, a scan for global files,
or an operation of the index itself. -/
inductive Action where
  | request (r : Request)
  | scan (root : String) (patterns : List String)
  | ensureIndexed (uri : String)
  | markDirty (uri : String)
  | refresh (uri : String)
  | outline (uri : String)
  | indexDependency (parent : Option String) (path : String) (isGlobal : Bool)
  | resolve (importer : Option String) (reference : String) (dotted : Bool)
  | definition (uri : String) (line character : Int)
  | configure (config : Config)

/-- The index after an action, whether it succeeds or not. -/
def Action.run (d : Disk) (s : Index) : Action → Index
  | request r => (handle d s r).2
  | scan root patterns => (s.scan d root patterns).index
  | ensureIndexed uri => (s.ensureIndexed d uri).index
  | markDirty uri => (s.markDirty d uri).index
  | refresh uri => (s.refresh d uri).index
  | outline uri => (s.outline d uri).index
  | indexDependency parent path isGlobal => (s.indexDependency d parent path isGlobal).index
  | resolve importer reference dotted => (s.resolve d importer reference dotted).index
  | definition uri line character => (s.definition d uri line character).index
  | configure config => s.configure config

/-- The indexes of all runs. -/
inductive Reachable : Index → Prop where
  | create (cwd root : String) (config : Config) : Reachable (.create cwd root config)
  | step {s : Index} (d : Disk) (a : Action) : Reachable s → Reachable (a.run d s)

theorem moves_run (d : Disk) (s : Index) (a : Action) : Moves d s (a.run d s) := by
  cases a with
  | request r => exact moves_handle d s r
  | scan root patterns => exact Index.moves_scan d s root patterns
  | ensureIndexed uri => exact Index.moves_ensureIndexed d s uri
  | markDirty uri => exact Index.moves_markDirty d s uri
  | refresh uri => exact Index.moves_refresh d s uri
  | outline uri => exact Index.moves_outline d s uri
  | indexDependency parent path isGlobal => exact Index.moves_indexDependency d s _ _ _
  | resolve importer reference dotted => exact Index.moves_resolve d s _ _ _
  | definition uri line character => exact Index.moves_definition d s _ _ _
  | configure config => exact .single (.configure s config)

/-- What an empty index has and every move keeps, every index of a run has. -/
theorem Reachable.invariant {P : Index → Prop}
    (hcreate : ∀ cwd root config, P (.create cwd root config))
    (hmove : ∀ d s s', Move d s s' → P s → P s') {s : Index} (h : Reachable s) : P s := by
  induction h with
  | create cwd root config => exact hcreate cwd root config
  | step d a _ ih => exact (moves_run d _ a).keeps (hmove d) ih

end LuaSymbols.Service
