import Mathlib
import LuaSymbols.Proofs.Service.OpenDocuments
import LuaSymbols.Proofs.Walk.Ownership

/-!
# The store

Records, edges, open documents and global files refer to each other by keys. An index is
`Sound` when all keys are normal, every record is filed under its own key with bindings
that belong to it, and edges and global files name records that are there, each once.
Every move keeps this. It may change records in place and add some, but an edge is only
added once its target has a record, so nothing ever points outside. A run is sound at
every point, also behind an action that failed (`store_sound`).
-/

namespace LuaSymbols

namespace FileRecord

variable (key : String) (deps : List String) (r : FileRecord)

@[simp]
theorem uri_addImport (dep : String) : (r.addImport key dep).uri = r.uri := by
  unfold addImport addDependency
  split
  · rfl
  · split <;> rfl

theorem mem_dependencies_addImport {dep k : String}
    (h : k ∈ (r.addImport key dep).dependencies) : k ∈ r.dependencies ∨ k = dep := by
  unfold addImport addDependency at h
  split at h
  · exact .inl h
  · split at h
    · exact .inl h
    · simpa using h

theorem nodup_dependencies_addImport (h : r.dependencies.Nodup) (dep : String) :
    (r.addImport key dep).dependencies.Nodup := by
  unfold addImport addDependency
  split
  · exact h
  · split
    · exact h
    · next hdep => simpa using h.concat hdep

end FileRecord

namespace Index

/-- A record is in order under a key: the key is normal and its own, its edges are
distinct and lead to records, and its bindings belong to it. -/
structure SoundAt (s : Index) (key : String) (r : FileRecord) : Prop where
  normal : Uri.normalize key = key
  uri : r.uri = key
  distinct : r.dependencies.Nodup
  known : ∀ dep ∈ r.dependencies, s.files.get? dep ≠ none
  owned : r.toBindings.Owned key

/-- The whole store is in order. -/
structure Sound (s : Index) : Prop where
  records : ∀ key r, s.files.get? key = some r → s.SoundAt key r
  buffers : ∀ key text, s.buffers.get? key = some text → Uri.normalize key = key
  distinct : s.globals.Nodup
  known : ∀ key ∈ s.globals, s.files.get? key ≠ none

section
variable {d : Disk} {s s' : Index} {key uri k : String} {r : FileRecord}

/-! ## Records -/

/-- More records do no harm. -/
theorem SoundAt.mono (h : s.SoundAt key r)
    (hknows : ∀ k, s.files.get? k ≠ none → s'.files.get? k ≠ none) : s'.SoundAt key r :=
  { h with known := fun dep hdep => hknows dep (h.known dep hdep) }

theorem SoundAt.withDirty (h : s.SoundAt key r) (dirty : Bool) :
    s.SoundAt key { r with dirty := dirty } :=
  { h with }

theorem SoundAt.addImport (h : s.SoundAt key r) {dep : String}
    (hdep : s.files.get? dep ≠ none) : s.SoundAt key (r.addImport k dep) := by
  refine ⟨h.normal, ?_, r.nodup_dependencies_addImport k h.distinct dep, fun dep' hdep' => ?_, ?_⟩
  · rw [FileRecord.uri_addImport, h.uri]
  · rcases r.mem_dependencies_addImport k hdep' with hdep' | rfl
    · exact h.known dep' hdep'
    · exact hdep
  · rw [FileRecord.toBindings_addImport]
    exact h.owned

theorem SoundAt.foldl_addImport {deps : List String} (h : s.SoundAt key r)
    (hdeps : ∀ dep ∈ deps, s.files.get? dep ≠ none) :
    s.SoundAt key (deps.foldl (FileRecord.addImport k) r) := by
  induction deps generalizing r with
  | nil => exact h
  | cons dep deps ih =>
    exact ih (h.addImport (hdeps dep (by simp))) fun dep' hdep' => hdeps dep' (by simp [hdep'])

/-- The walk of a file finds bindings of that file. -/
theorem owned_settled {t : Trace} (h : s.trace? d key = .ok (some t)) :
    t.settled.Owned key := by
  obtain ⟨text, root, -, -, rfl⟩ := exists_of_trace? h
  exact (Walk.owned_trace ⟨key, .ofText text, s.config.includeKeywords⟩ root).settled

theorem SoundAt.rebound (h : s.SoundAt key r) : s.SoundAt key (s.rebound d key r) := by
  unfold Index.rebound
  split
  · next t ht => exact { h with owned := owned_settled ht }
  · exact h.withDirty false

theorem owned_ownBindings (s : Index) (d : Disk) (key : String) :
    (s.ownBindings d key).Owned key := by
  unfold ownBindings
  split
  · next t ht => exact owned_settled ht
  · exact (Trace.Owned.nil).bindings

/-- A first record is in order once all imports of its file have records. -/
theorem soundAt_firstRecord (hnormal : Uri.normalize key = key)
    (hdeps : ∀ dep ∈ s.imports d key, s'.files.get? dep ≠ none) :
    s'.SoundAt key (s.firstRecord d key) := by
  rw [← firstRecord_eq]
  refine SoundAt.foldl_addImport ⟨hnormal, rfl, List.nodup_nil, ?_, ?_⟩ hdeps
  · intro dep hdep
    cases hdep
  · exact s.owned_ownBindings d key

/-! ## Indexing -/

theorem Fresh.normal (h : Fresh s d key k) (hkey : Uri.normalize key = key) :
    Uri.normalize k = k := by
  cases h with
  | self _ => exact hkey
  | step _ hdep _ =>
    obtain ⟨path, -, rfl⟩ := exists_of_mem_imports hdep
    exact Uri.normalize_ofPath ..

/-- The imports of a file that was entered have records. -/
theorem Visited.knows_imports (h : Visited d key s s') (hf : Fresh s d key k) :
    ∀ dep ∈ s.imports d k, s'.files.get? dep ≠ none := by
  intro dep hdep
  by_cases hnone : s.files.get? dep = none
  · simp [h.made dep (hf.step hdep hnone)]
  · exact h.knows hnone

theorem knows_imports_reindex (hr : s.files.get? key = some r) {first : String}
    (hfirst : first ∈ s.imports d key) (hf : Fresh s d first k) :
    ∀ dep ∈ s.imports d k, (s.reindex d key).index.files.get? dep ≠ none := by
  intro dep hdep
  by_cases hnone : s.files.get? dep = none
  · simp [made_reindex hr hfirst (hf.step hdep hnone)]
  · exact knows_reindex hr hnone

theorem knows_dep_reindex (hr : s.files.get? key = some r) :
    ∀ dep ∈ s.imports d key, (s.reindex d key).index.files.get? dep ≠ none := by
  intro dep hdep
  by_cases hnone : s.files.get? dep = none
  · simp [made_reindex hr hdep (.self hnone)]
  · exact knows_reindex hr hnone

/-- Where the setting stays and no record goes, the store is in order if its records are. -/
theorem Sound.of_records (hs : s.Sound) (hsame : SameSetting s s')
    (hknows : ∀ k, s.files.get? k ≠ none → s'.files.get? k ≠ none)
    (hrecords : ∀ k r, s'.files.get? k = some r → s'.SoundAt k r) : s'.Sound := by
  refine ⟨hrecords, fun k text hk => ?_, ?_, fun g hg => ?_⟩
  · rw [hsame.buffers] at hk
    exact hs.buffers k text hk
  · rw [hsame.globals]
    exact hs.distinct
  · rw [hsame.globals] at hg
    exact hknows g (hs.known g hg)

/-- Indexing a new file keeps the store in order: the new records are those of fresh keys. -/
theorem Sound.visit (hs : s.Sound) (hkey : Uri.normalize key = key) :
    (visit d (chainBound d) s key).Sound := by
  have hv := visited_visit d s key
  have hknows : ∀ k, s.files.get? k ≠ none → _ := fun k => hv.knows (k := k)
  refine hs.of_records hv.same hknows fun k r hr => ?_
  rcases hv.of_record hr with hold | ⟨-, hf, rfl⟩
  · exact (hs.records k r hold).mono hknows
  · exact soundAt_firstRecord (hf.normal hkey) (hv.knows_imports hf)

/-- Indexing a file again keeps the store in order. Its record gets new bindings and the
edges of its imports, which have records by then. -/
theorem Sound.reindex (hs : s.Sound) (hr : s.files.get? key = some r) :
    (s.reindex d key).index.Sound := by
  have hknows : ∀ k, s.files.get? k ≠ none → (s.reindex d key).index.files.get? k ≠ none :=
    fun k => knows_reindex hr
  refine hs.of_records (sameSetting_reindex hr) hknows fun k r' hr' => ?_
  rcases record_of_reindex hr hr' with ⟨rfl, rfl⟩ | ⟨-, hold⟩ | ⟨-, ⟨first, hfirst, hf⟩, rfl⟩
  · have hsound := (hs.records k r hr).rebound (d := d)
    exact (hsound.mono hknows).foldl_addImport (knows_dep_reindex hr)
  · exact (hs.records k r' hold).mono hknows
  · have hnormal : Uri.normalize first = first := by
      obtain ⟨path, -, rfl⟩ := exists_of_mem_imports hfirst
      exact Uri.normalize_ofPath ..
    exact soundAt_firstRecord (hf.normal hnormal) (knows_imports_reindex hr hfirst hf)

/-! ## Moves -/

/-- A move that changes records in place, one by one. -/
theorem Sound.update (hs : s.Sound) {f : String → FileRecord → FileRecord}
    (hfiles : ∀ k, s'.files.get? k = (s.files.get? k).map (f k))
    (hbuffers : ∀ k text, s'.buffers.get? k = some text → Uri.normalize k = k)
    (hglobals : s'.globals = s.globals)
    (hf : ∀ k r, s.SoundAt k r → s.SoundAt k (f k r)) : s'.Sound := by
  have hknows : ∀ k, s.files.get? k ≠ none → s'.files.get? k ≠ none := by
    intro k hk
    rw [hfiles k, ne_eq, Option.map_eq_none_iff]
    exact hk
  refine ⟨fun k r hr => ?_, hbuffers, hglobals ▸ hs.distinct, fun g hg => ?_⟩
  · rw [hfiles k] at hr
    obtain ⟨r₀, hr₀, rfl⟩ := Option.map_eq_some_iff.1 hr
    exact (hf k r₀ (hs.records k r₀ hr₀)).mono hknows
  · rw [hglobals] at hg
    exact hknows g (hs.known g hg)

theorem normal_of_mem_openDocument (hs : s.Sound) {text text' : String}
    (h : (s.openDocument uri text).buffers.get? k = some text') : Uri.normalize k = k := by
  rw [buffers_openDocument] at h
  split at h
  · next hk => rw [hk, Uri.normalize_normalize]
  · exact hs.buffers k text' h

theorem Sound.move (hs : s.Sound) (h : Move d s s') : s'.Sound := by
  have hmark (key k : String) : (s.modify key ({ · with dirty := true })).files.get? k =
      (s.files.get? k).map fun r => if k = key then { r with dirty := true } else r := by
    rw [get?_modify]
    split <;> simp
  have hmarked (key k : String) (r : FileRecord) (hr : s.SoundAt k r) :
      s.SoundAt k (if k = key then { r with dirty := true } else r) := by
    split
    · exact hr.withDirty true
    · exact hr
  cases h with
  | @visit uri _ => exact hs.visit (Uri.normalize_normalize uri)
  | reindex hr _ => exact hs.reindex hr
  | mark uri => exact hs.update (hmark _) hs.buffers rfl (hmarked _)
  | @link uri path hknown =>
    have hsame := SameSetting.addImport s (Uri.normalize uri) (Uri.ofPath d.cwd path)
    refine hs.update (f := fun k r => if k = Uri.normalize uri then
        r.addImport (Uri.normalize uri) (Uri.ofPath d.cwd path) else r) (fun k => ?_) ?_
      hsame.globals fun k r hr => ?_
    · rw [get?_addImport]
      split <;> simp
    · rw [hsame.buffers]
      exact hs.buffers
    · split
      · exact hr.addImport hknown
      · exact hr
  | @publish path hknown =>
    refine ⟨fun k r hr => ?_, ?_, ?_, ?_⟩
    · rw [files_addGlobal] at hr
      exact (hs.records k r hr).mono fun k hk => by rwa [files_addGlobal]
    · rw [buffers_addGlobal]
      exact hs.buffers
    · unfold addGlobal
      split
      · exact hs.distinct
      · next hnew => simpa using hs.distinct.concat hnew
    · rw [files_addGlobal]
      unfold addGlobal
      split
      · exact hs.known
      · intro g hg
        rcases List.mem_append.1 hg with hg | hg
        · exact hs.known g hg
        · rwa [List.mem_singleton.1 hg]
  | configure config =>
    refine hs.update (f := fun _ r => { r with dirty := true }) (fun k => ?_) hs.buffers rfl
      fun _ _ hr => hr.withDirty true
    simp [Index.configure, Table.get?_mapValues]
  | @store uri text _ =>
    exact hs.update (hmark _) (fun k _ => normal_of_mem_openDocument hs) rfl (hmarked _)
  | @storeNew uri text _ =>
    have hstored : (s.openDocument uri text).Sound :=
      { hs with
        records := fun k r hr => (hs.records k r hr).mono fun _ hk => hk
        buffers := fun k _ => normal_of_mem_openDocument hs }
    exact hstored.visit (Uri.normalize_normalize uri)
  | close uri =>
    refine { hs with
      records := fun k r hr => (hs.records k r hr).mono fun _ hk => hk
      buffers := fun k text hk => ?_ }
    rw [closeDocument, Table.get?_erase] at hk
    split at hk
    · cases hk
    · exact hs.buffers k text hk

end

end Index

namespace Service

open Index

theorem Reachable.sound {s : Index} (h : Reachable s) : s.Sound := by
  refine h.invariant (fun cwd root config => ?_) fun _ _ _ hmove hs => hs.move hmove
  exact ⟨fun _ _ hr => (by cases hr), fun _ _ hk => (by cases hk), List.nodup_nil,
    fun _ hg => (by cases hg)⟩

/-- **The store is in order.** After any run, whatever failed in it: records are filed
under their own normal keys, open documents too; edges and global files name records, each
once; all that a record declares carries its key; and its outline lists its functions,
those with a named base as methods. -/
theorem store_sound {s : Index} (h : Reachable s) :
    (∀ k r, s.files.get? k = some r → Uri.normalize k = k ∧ r.uri = k) ∧
      (∀ k text, s.buffers.get? k = some text → Uri.normalize k = k) ∧
      (∀ k r, s.files.get? k = some r →
        r.dependencies.Nodup ∧ ∀ dep ∈ r.dependencies, ∃ r', s.files.get? dep = some r') ∧
      (s.globals.Nodup ∧ ∀ g ∈ s.globals, ∃ r, s.files.get? g = some r) ∧
      (∀ k r, s.files.get? k = some r →
        (∀ x ∈ r.locals, x.uri = r.uri) ∧ (∀ x ∈ r.parameters, x.uri = r.uri) ∧
        (∀ x ∈ r.assignments, x.uri = r.uri) ∧ (∀ x ∈ r.functions, x.uri = r.uri) ∧
        (∀ x ∈ r.outline, x.uri = r.uri)) ∧
      ∀ k r, s.files.get? k = some r →
        r.outline = r.functions.map fun f =>
          ⟨f.label, if f.base.getD "" = "" then .function else .method, f.range, f.uri⟩ := by
  have hs := h.sound
  have hknown (k : String) (hk : s.files.get? k ≠ none) : ∃ r, s.files.get? k = some r :=
    Option.ne_none_iff_exists'.1 hk
  refine ⟨fun k r hr => ?_, hs.buffers, fun k r hr => ?_, ⟨hs.distinct, fun g hg => ?_⟩,
    fun k r hr => ?_, fun k r hr => ?_⟩
  · exact ⟨(hs.records k r hr).normal, (hs.records k r hr).uri⟩
  · exact ⟨(hs.records k r hr).distinct,
      fun dep hdep => hknown dep ((hs.records k r hr).known dep hdep)⟩
  · exact hknown g (hs.known g hg)
  · obtain ⟨hlocals, hparameters, hassignments, hfunctions, houtline⟩ := (hs.records k r hr).owned
    rw [(hs.records k r hr).uri]
    refine ⟨hlocals, hparameters, hassignments, hfunctions, fun x hx => ?_⟩
    rw [houtline] at hx
    obtain ⟨f, hf, rfl⟩ := List.mem_map.1 hx
    exact hfunctions f hf
  · exact (hs.records k r hr).owned.outline

/-- A document is open that imports a script and declares a method. The script is global. -/
def stocked : Index :=
  (Action.indexDependency none "a.lua" true).run (scriptDisk "x = 1")
    ((Action.request ⟨"POST", "/documents/open", .value (.object [("uri", .string "file:///c.lua"),
      ("text", .string "require('a') function t.f(x) end")])⟩).run (scriptDisk "x = 1")
        (.create "/" "/" {}))

theorem store_sound_stocked : ∃ r a, stocked.files.get? "file:///c.lua" = some r ∧
    r.uri = "file:///c.lua" ∧ r.dependencies = ["file:///a.lua"] ∧
    stocked.globals = ["file:///a.lua"] ∧ stocked.files.get? "file:///a.lua" = some a ∧
    a.uri = "file:///a.lua" ∧ (∀ x ∈ r.parameters, x.uri = "file:///c.lua") ∧
    r.outline.map (·.kind) = [.method] := by
  have hreachable : Reachable stocked := .step _ _ (.step _ _ (.create "/" "/" {}))
  have hfacts : stocked.globals = ["file:///a.lua"] ∧
      (stocked.files.get? "file:///c.lua").map (fun r =>
        (r.dependencies, r.functions.map (·.base))) = some (["file:///a.lua"], [some "t"]) := by
    decide +kernel
  obtain ⟨hglobals, hrecord⟩ := hfacts
  obtain ⟨r, hr, hparts⟩ := Option.map_eq_some_iff.1 hrecord
  obtain ⟨hdeps, hbases⟩ := Prod.mk.inj hparts
  obtain ⟨hkeys, -, hedges, -, howned, houtline⟩ := store_sound hreachable
  have huri := (hkeys _ r hr).2
  obtain ⟨a, ha⟩ := (hedges _ r hr).2 "file:///a.lua" (by simp [hdeps])
  refine ⟨r, a, hr, huri, hdeps, hglobals, ha, (hkeys _ a ha).2,
    huri ▸ (howned _ r hr).2.1, ?_⟩
  obtain ⟨f, hf, hbase⟩ := List.map_eq_singleton_iff.1 hbases
  rw [houtline _ r hr, hf]
  simp [hbase]

end Service

end LuaSymbols
