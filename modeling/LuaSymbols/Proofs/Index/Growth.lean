import Mathlib
import LuaSymbols.Proofs.Index.Moves
import LuaSymbols.Proofs.Path.NormalForm

/-!
# The records that operations add

Where the keys of new records come from: an operation adds the file it is told of and files
that it finds on the disk (`Adds`). A kind of keys that holds all files of the disk thus has
to be looked at only where a file is named.
-/

namespace LuaSymbols

/-- A path and its absolute form have one key. -/
theorem Uri.ofPath_absolute (d : Disk) (path : String) :
    ofPath d.cwd (Path.absolute d.cwd path) = ofPath d.cwd path := by
  simp only [ofPath, ofPathChars, Path.toList_absolute,
    Path.absoluteChars_absoluteChars d.rooted]

namespace Index

/-- Every key with a record had one before, or is of the kind `P`. -/
def Adds (P : String → Prop) (s s' : Index) : Prop :=
  ∀ k, s'.files.get? k ≠ none → s.files.get? k ≠ none ∨ P k

section
variable {P : String → Prop} {d : Disk} {s s' : Index} {key uri : String} {α β : Type}

namespace Adds

theorem refl (s : Index) : Adds P s s := fun _ => .inl

theorem trans {s₁ : Index} (h : Adds P s s₁) (h₁ : Adds P s₁ s') : Adds P s s' := by
  intro k hk
  rcases h₁ k hk with hk | hP
  · exact h k hk
  · exact .inr hP

/-- Nothing is added where no key gets a record. -/
theorem of_files (h : ∀ k, s'.files.get? k ≠ none → s.files.get? k ≠ none) : Adds P s s' :=
  fun k hk => .inl (h k hk)

theorem andThen {o : Outcome α} {f : α → Index → Outcome β} (h : Adds P s o.index)
    (hf : ∀ a, o = .pure a o.index → Adds P o.index (f a o.index).index) :
    Adds P s (o.andThen f).index := by
  obtain ⟨result, index⟩ := o
  cases result with
  | error e => exact h
  | ok a => exact h.trans (hf a rfl)

theorem map {o : Outcome α} {f : α → β} (h : Adds P s o.index) : Adds P s (o.map f).index :=
  h.andThen fun _ _ => .refl _

end Adds

theorem adds_modify (s : Index) (key : String) (f : FileRecord → FileRecord) :
    Adds P s (s.modify key f) :=
  .of_files fun k hk => by simpa using hk

/-! ## Operations -/

variable (hfiles : ∀ path, d.isFile path = true → P (Uri.ofPath d.cwd path))

include hfiles

theorem of_mem_imports {dep : String} (h : dep ∈ s.imports d key) : P dep := by
  obtain ⟨path, hpath, rfl⟩ := exists_of_mem_imports h
  rw [Uri.ofPath_absolute]
  exact hfiles path hpath

theorem Fresh.of_files {k : String} (h : Fresh s d key k) (hkey : P key) : P k := by
  cases h with
  | self _ => exact hkey
  | step _ hdep _ => exact of_mem_imports hfiles hdep

theorem adds_visit (s : Index) (hkey : P key) : Adds P s (visit d (chainBound d) s key) := by
  intro k hk
  obtain ⟨r, hr⟩ := Option.ne_none_iff_exists'.1 hk
  rcases (visited_visit d s key).of_record hr with hold | ⟨-, hf, -⟩
  · exact .inl (by simp [hold])
  · exact .inr (hf.of_files hfiles hkey)

theorem adds_reindex {r : FileRecord} (hr : s.files.get? key = some r) :
    Adds P s (s.reindex d key).index := by
  intro k hk
  obtain ⟨r', hr'⟩ := Option.ne_none_iff_exists'.1 hk
  rcases record_of_reindex hr hr' with ⟨rfl, -⟩ | ⟨-, hold⟩ | ⟨-, ⟨dep, hdep, hf⟩, -⟩
  · exact .inl (by simp [hr])
  · exact .inl (by simp [hold])
  · exact .inr (hf.of_files hfiles (of_mem_imports hfiles hdep))

theorem adds_ensureIndexed (s : Index) (huri : P (Uri.normalize uri)) :
    Adds P s (s.ensureIndexed d uri).index := by
  cases h : s.files.get? (Uri.normalize uri) with
  | none =>
    rw [ensureIndexed_of_unknown h, index_settle]
    exact adds_visit hfiles s huri
  | some r =>
    rw [ensureIndexed_of_known h]
    exact .refl s

theorem adds_markDirty (s : Index) (huri : P (Uri.normalize uri)) :
    Adds P s (s.markDirty d uri).index :=
  (adds_ensureIndexed hfiles s huri).andThen fun _ _ => adds_modify _ _ _

/-- A file that has a record need not be of the kind. -/
theorem adds_refresh_of_known (h : s.files.get? (Uri.normalize uri) ≠ none) :
    Adds P s (s.refresh d uri).index := by
  obtain ⟨r, hr⟩ := Option.ne_none_iff_exists'.1 h
  cases hd : r.dirty with
  | true =>
    rw [refresh_of_dirty hr hd]
    exact adds_reindex hfiles hr
  | false =>
    rw [refresh_of_clean hr hd]
    exact .refl s

theorem adds_refresh (s : Index) (huri : P (Uri.normalize uri)) :
    Adds P s (s.refresh d uri).index := by
  by_cases h : s.files.get? (Uri.normalize uri) = none
  · rw [refresh_of_unknown h]
    exact adds_ensureIndexed hfiles s huri
  · exact adds_refresh_of_known hfiles h

theorem adds_indexDependency (s : Index) (parent : Option String) {path : String}
    (isGlobal : Bool) (hpath : P (Uri.ofPath d.cwd path)) :
    Adds P s (s.indexDependency d parent path isGlobal).index := by
  refine (adds_ensureIndexed hfiles s (by simpa using hpath)).andThen fun _ _ => ?_
  have hlink : Adds P (s.ensureIndexed d (Uri.ofPath d.cwd path)).index
      ((s.ensureIndexed d (Uri.ofPath d.cwd path)).index.linkParent parent
        (Uri.ofPath d.cwd path)) := by
    refine .of_files fun k hk => ?_
    unfold linkParent at hk
    split at hk
    · simpa using hk
    · exact hk
  cases isGlobal with
  | false => exact hlink
  | true => exact hlink.trans (.of_files fun k hk => by simpa using hk)

theorem adds_indexAll (parent : Option String) (isGlobal : Bool) {paths : List String}
    (h : ∀ path ∈ paths, P (Uri.ofPath d.cwd path)) (s : Index) :
    Adds P s (indexAll d parent isGlobal paths s).index := by
  induction paths generalizing s with
  | nil => exact .refl s
  | cons path rest ih =>
    refine (adds_indexDependency hfiles s parent isGlobal (h path (by simp))).andThen fun _ _ => ?_
    exact (ih (fun path hpath => h path (List.mem_cons_of_mem _ hpath)) _).map

theorem adds_resolve (s : Index) (importer : Option String) (reference : String)
    (dotted : Bool) : Adds P s (s.resolve d importer reference dotted).index := by
  refine (adds_indexAll hfiles importer false (fun path hpath => ?_) s).map
  obtain ⟨file, hfile, rfl⟩ := exists_of_mem_find hpath
  rw [Uri.ofPath_absolute]
  exact hfiles file hfile

theorem adds_scan (s : Index) (root : String) (patterns : List String) :
    Adds P s (s.scan d root patterns).index := by
  suffices h : ∀ s, Adds P s (indexMatches d root patterns s).index from (h s).map
  induction patterns with
  | nil => exact .refl
  | cons pattern rest ih =>
    intro s
    unfold indexMatches
    split
    · exact .refl s
    · next paths hpaths =>
      refine (adds_indexAll hfiles none true (fun path hpath => ?_) s).andThen
        fun _ _ => (ih _).map
      obtain ⟨found, -, rfl⟩ : ∃ found, d.glob (Path.join root pattern) = .ok found ∧
          found.filter (fun p => d.isFile p && Path.isLua p) = paths := by
        unfold scripts at hpaths
        cases hglob : d.glob (Path.join root pattern) with
        | error e => simp [hglob, Except.map] at hpaths
        | ok found => exact ⟨found, rfl, by simpa [hglob, Except.map] using hpaths⟩
      have hfile := (List.mem_filter.1 hpath).2
      rw [Bool.and_eq_true] at hfile
      exact hfiles path hfile.1

theorem adds_globalDefinitions (o : Occurrence) (uris : List String) (s : Index) :
    Adds P s (globalDefinitions d o uris s).index := by
  induction uris generalizing s with
  | nil => exact .refl s
  | cons uri rest ih =>
    unfold globalDefinitions
    split
    · exact ih s
    · next r hr =>
      have hknown : s.files.get? (Uri.normalize uri) ≠ none := by
        rw [show s.files.get? (Uri.normalize uri) = some r from hr]
        simp
      exact (adds_refresh_of_known hfiles hknown).andThen fun _ _ => (ih _).map

theorem adds_definition (s : Index) (line character : Int) (huri : P (Uri.normalize uri)) :
    Adds P s (s.definition d uri line character).index := by
  refine (adds_refresh hfiles s huri).andThen fun r _ => ?_
  split
  · exact .refl _
  · split
    · exact adds_globalDefinitions hfiles _ _ _
    · exact .refl _

end

end Index

end LuaSymbols
