import Mathlib
import LuaSymbols.Index.Definition
import LuaSymbols.Index.Scan
import LuaSymbols.Proofs.Index.Operations

/-!
# Moves of an index

Every operation changes the index by a few kinds of `Move`: a file is visited, indexed
again or marked as edited, an edge or a global file is added, a document is stored
together with what follows from it, a document is dropped, the configuration is
replaced. `Moves` are runs of these. An invariant that every move keeps is kept by every
operation, also by one that ends in a failure.
-/

namespace LuaSymbols

namespace Index

/-- One change of the index, the files being those of `d`. Storing a text is one move
with what it brings: a known file is marked as edited, an unknown one is visited. -/
inductive Move (d : Disk) : Index → Index → Prop where
  | visit {s : Index} {uri : String} : s.files.get? (Uri.normalize uri) = none →
      Move d s (visit d (chainBound d) s (Uri.normalize uri))
  | reindex {s : Index} {uri : String} {r : FileRecord} :
      s.files.get? (Uri.normalize uri) = some r → r.dirty = true →
      Move d s (s.reindex d (Uri.normalize uri)).index
  | mark (s : Index) (uri : String) :
      Move d s (s.modify (Uri.normalize uri) ({ · with dirty := true }))
  | link {s : Index} (uri : String) {path : String} :
      s.files.get? (Uri.ofPath d.cwd path) ≠ none →
      Move d s (s.addImport (Uri.normalize uri) (Uri.ofPath d.cwd path))
  | publish {s : Index} {path : String} : s.files.get? (Uri.ofPath d.cwd path) ≠ none →
      Move d s (s.addGlobal (Uri.ofPath d.cwd path))
  | configure (s : Index) (config : Config) : Move d s (s.configure config)
  | store {s : Index} {uri : String} (text : String) : s.files.get? (Uri.normalize uri) ≠ none →
      Move d s ((s.openDocument uri text).modify (Uri.normalize uri) ({ · with dirty := true }))
  | storeNew {s : Index} {uri : String} (text : String) :
      s.files.get? (Uri.normalize uri) = none →
      Move d s (Index.visit d (chainBound d) (s.openDocument uri text) (Uri.normalize uri))
  | close (s : Index) (uri : String) : Move d s (s.closeDocument uri)

abbrev Moves (d : Disk) : Index → Index → Prop := Relation.ReflTransGen (Move d)

section
variable {d : Disk} {s s' : Index} {key uri : String} {α β : Type}

@[simp]
theorem files_addGlobal (s : Index) (uri : String) : (s.addGlobal uri).files = s.files := by
  unfold addGlobal
  split <;> rfl

@[simp]
theorem config_addGlobal (s : Index) (uri : String) : (s.addGlobal uri).config = s.config := by
  unfold addGlobal
  split <;> rfl

@[simp]
theorem buffers_addGlobal (s : Index) (uri : String) :
    (s.addGlobal uri).buffers = s.buffers := by
  unfold addGlobal
  split <;> rfl

@[simp]
theorem files_openDocument (s : Index) (uri text : String) :
    (s.openDocument uri text).files = s.files := rfl

@[simp]
theorem openDocument_normalize (s : Index) (uri text : String) :
    s.openDocument (Uri.normalize uri) text = s.openDocument uri text := by
  simp [openDocument]

theorem Visited.knows {k : String} (h : Visited d key s s') (hk : s.files.get? k ≠ none) :
    s'.files.get? k ≠ none := by
  obtain ⟨r, hr⟩ := Option.ne_none_iff_exists'.1 hk
  simp [h.kept k r hr]

/-- Records are never removed. -/
theorem Move.knows {k : String} (h : Move d s s') (hk : s.files.get? k ≠ none) :
    s'.files.get? k ≠ none := by
  cases h with
  | visit _ => exact (visited_visit d s _).knows hk
  | reindex hr _ => exact knows_reindex hr hk
  | mark => simpa using hk
  | link => simpa using hk
  | publish => simpa using hk
  | configure => simpa [Index.configure, Table.get?_mapValues] using hk
  | store => simpa using hk
  | storeNew _ _ => exact (visited_visit d _ _).knows hk
  | close => exact hk

/-- What every move keeps is kept by a run of them. -/
theorem Moves.keeps {P : Index → Prop} (hmove : ∀ s s', Move d s s' → P s → P s')
    (h : Moves d s s') (hs : P s) : P s' := by
  induction h with
  | refl => exact hs
  | tail _ hm ih => exact hmove _ _ hm ih

theorem Moves.knows {k : String} (h : Moves d s s') (hk : s.files.get? k ≠ none) :
    s'.files.get? k ≠ none :=
  h.keeps (fun _ _ hm => hm.knows) hk

/-- An operation moves as its parts do. -/
theorem Moves.andThen {o : Outcome α} {f : α → Index → Outcome β} (h : Moves d s o.index)
    (hf : ∀ a, o = .pure a o.index → Moves d o.index (f a o.index).index) :
    Moves d s (o.andThen f).index := by
  obtain ⟨result, index⟩ := o
  cases result with
  | error e => exact h
  | ok a => exact h.trans (hf a rfl)

theorem Moves.map {o : Outcome α} {f : α → β} (h : Moves d s o.index) :
    Moves d s (o.map f).index :=
  h.andThen fun _ _ => .refl

/-! ## Operations -/

theorem moves_ensureIndexed (d : Disk) (s : Index) (uri : String) :
    Moves d s (s.ensureIndexed d uri).index := by
  cases h : s.files.get? (Uri.normalize uri) with
  | none =>
    rw [ensureIndexed_of_unknown h, index_settle]
    exact .single (.visit h)
  | some r =>
    rw [ensureIndexed_of_known h]
    exact .refl

theorem moves_markDirty (d : Disk) (s : Index) (uri : String) :
    Moves d s (s.markDirty d uri).index :=
  (moves_ensureIndexed d s uri).andThen fun _ _ => .single (.mark _ uri)

theorem moves_refresh (d : Disk) (s : Index) (uri : String) :
    Moves d s (s.refresh d uri).index := by
  cases h : s.files.get? (Uri.normalize uri) with
  | none =>
    rw [refresh_of_unknown h]
    exact moves_ensureIndexed d s uri
  | some r =>
    cases hd : r.dirty with
    | true =>
      rw [refresh_of_dirty h hd]
      exact .single (.reindex h hd)
    | false =>
      rw [refresh_of_clean h hd]
      exact .refl

theorem moves_outline (d : Disk) (s : Index) (uri : String) :
    Moves d s (s.outline d uri).index :=
  (moves_refresh d s uri).map

theorem moves_linkParent {path : String} (parent : Option String)
    (h : s.files.get? (Uri.ofPath d.cwd path) ≠ none) :
    Moves d s (s.linkParent parent (Uri.ofPath d.cwd path)) := by
  unfold linkParent
  split
  · exact .single (.link _ h)
  · exact .refl

theorem moves_indexDependency (d : Disk) (s : Index) (parent : Option String) (path : String)
    (isGlobal : Bool) : Moves d s (s.indexDependency d parent path isGlobal).index := by
  refine (moves_ensureIndexed d s _).andThen fun _ _ => ?_
  have hknown := get?_ensureIndexed d s (Uri.ofPath d.cwd path)
  rw [Uri.normalize_ofPath] at hknown
  have hlink := moves_linkParent parent hknown
  cases isGlobal with
  | false => exact hlink
  | true => exact hlink.tail (.publish (Moves.knows hlink hknown))

theorem moves_indexAll (d : Disk) (parent : Option String) (isGlobal : Bool)
    (paths : List String) (s : Index) : Moves d s (indexAll d parent isGlobal paths s).index := by
  induction paths generalizing s with
  | nil => exact .refl
  | cons path rest ih =>
    exact (moves_indexDependency d s parent path isGlobal).andThen fun _ _ => (ih _).map

theorem moves_resolve (d : Disk) (s : Index) (importer : Option String) (reference : String)
    (dotted : Bool) : Moves d s (s.resolve d importer reference dotted).index :=
  (moves_indexAll d importer false _ s).map

theorem moves_scan (d : Disk) (s : Index) (root : String) (patterns : List String) :
    Moves d s (s.scan d root patterns).index := by
  suffices h : ∀ s, Moves d s (indexMatches d root patterns s).index from (h s).map
  induction patterns with
  | nil => exact fun _ => .refl
  | cons pattern rest ih =>
    intro s
    unfold indexMatches
    split
    · exact .refl
    · exact (moves_indexAll d none true _ s).andThen fun _ _ => (ih _).map

theorem moves_globalDefinitions (d : Disk) (o : Occurrence) (uris : List String) (s : Index) :
    Moves d s (globalDefinitions d o uris s).index := by
  induction uris generalizing s with
  | nil => exact .refl
  | cons uri rest ih =>
    unfold globalDefinitions
    split
    · exact ih s
    · exact (moves_refresh d s uri).andThen fun _ _ => (ih _).map

theorem moves_definition (d : Disk) (s : Index) (uri : String) (line character : Int) :
    Moves d s (s.definition d uri line character).index := by
  refine (moves_refresh d s uri).andThen fun r _ => ?_
  split
  · exact .refl
  · split
    · exact moves_globalDefinitions d _ _ _
    · exact .refl

end

end Index

end LuaSymbols
