import Mathlib
import LuaSymbols.Proofs.Index.Moves

/-!
# What an operation on one file leaves alone

To index a file is to walk any number of others on the way, all in one index, and imports
may lead back to a file that is being walked. Still an operation on one file is about that
file (`Framed`): the setting and every other record stay as they are, and what is added are
clean records of files that the imports led to. Linking a file to its importer adds an edge
and a global file at most (`Attached`). It does not matter whether the operation comes back
with an answer, or how deep a walk went.
-/

namespace LuaSymbols

/-- An import adds one edge, behind all others, or nothing. -/
theorem FileRecord.addImport_eq_or (r : FileRecord) (key dep : String) :
    r.addImport key dep = r ∨ dep ∉ r.dependencies ∧
      r.addImport key dep = { r with dependencies := r.dependencies ++ [dep] } := by
  unfold addImport addDependency
  split
  · exact .inl rfl
  · split
    · exact .inl rfl
    · next hnew => exact .inr ⟨hnew, rfl⟩

namespace Index

/-- What an operation on the file at `key` may do: make or change the record of that file,
and make the records of files that its imports lead to. -/
structure Framed (d : Disk) (key : String) (s s' : Index) : Prop where
  same : SameSetting s s'
  known : s'.files.get? key ≠ none
  kept : ∀ k r, k ≠ key → s.files.get? k = some r → s'.files.get? k = some r
  reached : ∀ k r, k ≠ key → s.files.get? k = none → s'.files.get? k = some r →
    r.dirty = false ∧ ∃ dep ∈ s.imports d key, Fresh s d dep k

/-- What linking the file at `key` to its importer may do: make the record of that file and
of those that its imports lead to, and add one edge and one global file. -/
structure Attached (d : Disk) (parent : Option String) (key : String) (isGlobal : Bool)
    (s s' : Index) : Prop where
  config : s'.config = s.config
  root : s'.root = s.root
  buffers : s'.buffers = s.buffers
  globals : s'.globals = s.globals ∨
    isGlobal = true ∧ key ∉ s.globals ∧ s'.globals = s.globals ++ [key]
  known : s'.files.get? key ≠ none
  kept : ∀ k r, s.files.get? k = some r → s'.files.get? k = some r ∨
    parent.map Uri.normalize = some k ∧ key ∉ r.dependencies ∧
      s'.files.get? k = some { r with dependencies := r.dependencies ++ [key] }
  reached : ∀ k r, s.files.get? k = none → s'.files.get? k = some r →
    r.dirty = false ∧ Fresh s d key k

section
variable {d : Disk} {s s' : Index} {key uri k : String} {r : FileRecord} {α β : Type}

/-! ## Meeting a file -/

/-- To make sure that a file is indexed is to meet it, known or not. -/
theorem visited_ensureIndexed (d : Disk) (s : Index) (uri : String) :
    Visited d (Uri.normalize uri) s (s.ensureIndexed d uri).index := by
  cases h : s.files.get? (Uri.normalize uri) with
  | none =>
    rw [ensureIndexed_of_unknown h, index_settle]
    exact visited_visit d s _
  | some r =>
    rw [ensureIndexed_of_known h]
    exact .of_known (by simp [h])

theorem Visited.known (h : Visited d key s s') : s'.files.get? key ≠ none := by
  by_cases hnone : s.files.get? key = none
  · simp [h.made key (.self hnone)]
  · exact h.knows hnone

/-- A record that is added is clean, and imports lead to it. -/
theorem Visited.added (h : Visited d key s s') (hk : s.files.get? k = none)
    (hr : s'.files.get? k = some r) : r.dirty = false ∧ Fresh s d key k := by
  rcases h.of_record hr with hold | ⟨-, hf, rfl⟩
  · cases hk.symm.trans hold
  · exact ⟨rfl, hf⟩

/-- A chain of imports to another file starts with one of the imports. -/
theorem Fresh.exists_import (h : Fresh s d key k) (hne : k ≠ key) :
    ∃ dep ∈ s.imports d key, Fresh s d dep k := by
  -- the chain grows at its end, so the hypothesis is about its last file but one
  induction h with
  | self _ => exact absurd rfl hne
  | @step k dep _ hdep hnone ih =>
    by_cases hk : k = key
    · exact ⟨dep, hk ▸ hdep, .self hnone⟩
    · obtain ⟨first, hfirst, hchain⟩ := ih hk
      exact ⟨first, hfirst, .step hchain hdep hnone⟩

/-! ## Operations on one file -/

theorem Visited.framed (h : Visited d key s s') : Framed d key s s' := by
  refine ⟨h.same, h.known, fun k r _ hr => h.kept k r hr, fun k r hne hk hr => ?_⟩
  obtain ⟨hclean, hfresh⟩ := h.added hk hr
  exact ⟨hclean, hfresh.exists_import hne⟩

namespace Framed

/-- The record of the file itself is free to change. -/
theorem modify (h : Framed d key s s') (f : FileRecord → FileRecord) :
    Framed d key s (s'.modify key f) := by
  have hother (k : String) (hne : k ≠ key) :
      (s'.modify key f).files.get? k = s'.files.get? k := by
    rw [get?_modify, if_neg hne]
  refine ⟨h.same.trans (.modify s' key f), by simpa using h.known, fun k r hne hr => ?_,
    fun k r hne hk hr => ?_⟩
  · rw [hother k hne, h.kept k r hne hr]
  · rw [hother k hne] at hr
    exact h.reached k r hne hk hr

/-- What is done with an answer may fail to be done. -/
theorem andThen {o : Outcome α} {f : α → Index → Outcome β} (h : Framed d key s o.index)
    (hf : ∀ a, Framed d key s (f a o.index).index) : Framed d key s (o.andThen f).index := by
  obtain ⟨result, index⟩ := o
  cases result with
  | error e => exact h
  | ok a => exact hf a

end Framed

theorem framed_ensureIndexed (d : Disk) (s : Index) (uri : String) :
    Framed d (Uri.normalize uri) s (s.ensureIndexed d uri).index :=
  (visited_ensureIndexed d s uri).framed

theorem framed_markDirty (d : Disk) (s : Index) (uri : String) :
    Framed d (Uri.normalize uri) s (s.markDirty d uri).index :=
  (framed_ensureIndexed d s uri).andThen fun _ => (framed_ensureIndexed d s uri).modify _

theorem framed_reindex (hown : s.files.get? key = some r) :
    Framed d key s (s.reindex d key).index := by
  refine ⟨sameSetting_reindex hown, by simp [get?_reindex hown],
    fun k r' hne => get?_reindex_of_ne hown hne, fun k r' hne hk hr' => ?_⟩
  rcases record_of_reindex hown hr' with ⟨rfl, -⟩ | ⟨-, hold⟩ | ⟨-, hfresh, rfl⟩
  · exact absurd rfl hne
  · cases hk.symm.trans hold
  · exact ⟨rfl, hfresh⟩

theorem framed_refresh (d : Disk) (s : Index) (uri : String) :
    Framed d (Uri.normalize uri) s (s.refresh d uri).index := by
  cases h : s.files.get? (Uri.normalize uri) with
  | none =>
    rw [refresh_of_unknown h]
    exact framed_ensureIndexed d s uri
  | some r =>
    cases hd : r.dirty with
    | true =>
      rw [refresh_of_dirty h hd]
      exact framed_reindex h
    | false =>
      rw [refresh_of_clean h hd]
      exact (Visited.of_known (by simp [h])).framed

theorem framed_outline (d : Disk) (s : Index) (uri : String) :
    Framed d (Uri.normalize uri) s (s.outline d uri).index :=
  (framed_refresh d s uri).andThen fun _ => framed_refresh d s uri

/-! ## Linking a file to its importer -/

theorem get?_linkParent (s : Index) (parent : Option String) (dep k : String) :
    (s.linkParent parent dep).files.get? k =
      if parent.map Uri.normalize = some k then (s.files.get? k).map (·.addImport k dep)
      else s.files.get? k := by
  cases parent with
  | none => simp [linkParent]
  | some uri =>
    rw [linkParent, get?_addImport]
    by_cases hk : k = Uri.normalize uri
    · simp [hk]
    · simp [hk, Ne.symm hk]

theorem sameSetting_linkParent (s : Index) (parent : Option String) (dep : String) :
    SameSetting s (s.linkParent parent dep) := by
  unfold linkParent
  split
  · exact .addImport s _ dep
  · exact .refl s

namespace Attached

variable {parent : Option String} {isGlobal : Bool}

/-- The file is indexed, and not linked yet. -/
theorem of_visited (h : Visited d key s s') : Attached d parent key isGlobal s s' :=
  ⟨h.same.config, h.same.root, h.same.buffers, .inl h.same.globals, h.known,
    fun k r hr => .inl (h.kept k r hr), fun _ _ => h.added⟩

/-- The file is indexed and linked. -/
theorem linkParent (h : Visited d key s s') :
    Attached d parent key isGlobal s (s'.linkParent parent key) := by
  have hsame := h.same.trans (sameSetting_linkParent s' parent key)
  refine ⟨hsame.config, hsame.root, hsame.buffers, .inl hsame.globals, ?_, fun k r hr => ?_,
    fun k r hk hr => ?_⟩
  · rw [get?_linkParent]
    split
    · simpa using h.known
    · exact h.known
  · rw [get?_linkParent, h.kept k r hr]
    split
    · next hparent =>
      rcases r.addImport_eq_or k key with hsame | ⟨hnew, hadded⟩
      · exact .inl (by rw [Option.map_some, hsame])
      · exact .inr ⟨hparent, hnew, by rw [Option.map_some, hadded]⟩
    · exact .inl rfl
  · rw [get?_linkParent] at hr
    split at hr
    · obtain ⟨r₀, hr₀, rfl⟩ := Option.map_eq_some_iff.1 hr
      rw [FileRecord.dirty_addImport]
      exact h.added hk hr₀
    · exact h.added hk hr

theorem addGlobal (h : Attached d parent key true s s') (hglobals : s'.globals = s.globals) :
    Attached d parent key true s (s'.addGlobal key) := by
  unfold Index.addGlobal
  split
  · exact h
  · next hnew =>
    rw [hglobals] at hnew ⊢
    exact { h with globals := .inr ⟨rfl, hnew, rfl⟩ }

end Attached

theorem attached_indexDependency (d : Disk) (s : Index) (parent : Option String) (path : String)
    (isGlobal : Bool) :
    Attached d parent (Uri.ofPath d.cwd path) isGlobal s
      (s.indexDependency d parent path isGlobal).index := by
  have hvisited := visited_ensureIndexed d s (Uri.ofPath d.cwd path)
  rw [Uri.normalize_ofPath] at hvisited
  unfold indexDependency
  dsimp only
  generalize s.ensureIndexed d (Uri.ofPath d.cwd path) = o at hvisited
  obtain ⟨result, index⟩ := o
  cases result with
  | error e => exact .of_visited hvisited
  | ok r =>
    have hlinked := sameSetting_linkParent index parent (Uri.ofPath d.cwd path)
    have hglobals := (hvisited.same.trans hlinked).globals
    cases isGlobal with
    | false => exact .linkParent hvisited
    | true => exact (Attached.linkParent hvisited).addGlobal hglobals

end

/-- **Frame of indexing.** In any index, on any disk, and whether the operation fails or a
walk goes too deep: indexing a file, marking it as edited, refreshing it (which is what a
save does) and listing its outline change no record but that of the file, and add clean
records of files that its imports lead to. Indexing a file as an import of another one
leaves every record that is there, up to one more edge of the importer, and adds one global
file at most. Documents and configuration are the same. -/
theorem indexing_framed (s : Index) (d : Disk) (uri : String) :
    (Framed d (Uri.normalize uri) s (s.ensureIndexed d uri).index ∧
      ∀ k r, s.files.get? k = some r → (s.ensureIndexed d uri).index.files.get? k = some r) ∧
    Framed d (Uri.normalize uri) s (s.markDirty d uri).index ∧
    Framed d (Uri.normalize uri) s (s.refresh d uri).index ∧
    Framed d (Uri.normalize uri) s (s.outline d uri).index ∧
    ∀ parent path isGlobal, Attached d parent (Uri.ofPath d.cwd path) isGlobal s
      (s.indexDependency d parent path isGlobal).index :=
  ⟨⟨framed_ensureIndexed d s uri, (visited_ensureIndexed d s uri).kept⟩, framed_markDirty d s uri,
    framed_refresh d s uri, framed_outline d s uri, attached_indexDependency d s⟩

end Index

end LuaSymbols
