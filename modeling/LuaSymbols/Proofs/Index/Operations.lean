import Mathlib
import LuaSymbols.Proofs.Index.Closure

/-!
# Operations of an index

What each operation does, said once: how outcomes are put together, which text and which
walk a file has, what indexing a file for the first time and again leaves, and what a
refresh that succeeds keeps (`Refreshed`). An include call that is met in the middle of a
walk does what `resolve` does on its own (`resolve_eq`).
-/

namespace LuaSymbols.Index

variable {d : Disk} {s s' : Index} {key uri text : String} {α β : Type}

/-! ## Outcomes -/

@[simp]
theorem index_pure (a : α) (s : Index) : (Outcome.pure a s).index = s := rfl

@[simp]
theorem pure_andThen (a : α) (s : Index) (f : α → Index → Outcome β) :
    (Outcome.pure a s).andThen f = f a s := rfl

theorem andThen_assoc {γ : Type} (o : Outcome α) (f : α → Index → Outcome β)
    (g : β → Index → Outcome γ) :
    (o.andThen f).andThen g = o.andThen fun a s => (f a s).andThen g := by
  obtain ⟨result, index⟩ := o
  cases result <;> rfl

theorem andThen_eq_pure {o : Outcome α} {f : α → Index → Outcome β} {b : β}
    (h : o.andThen f = .pure b s') : ∃ a s₁, o = .pure a s₁ ∧ f a s₁ = .pure b s' := by
  obtain ⟨result, index⟩ := o
  cases result with
  | ok a => exact ⟨a, index, rfl, h⟩
  | error e => cases h

theorem map_eq_pure {o : Outcome α} {f : α → β} {b : β} (h : o.map f = .pure b s') :
    ∃ a, o = .pure a s' ∧ f a = b := by
  obtain ⟨a, s₁, rfl, h⟩ := andThen_eq_pure h
  cases h
  exact ⟨a, rfl, rfl⟩

@[simp]
theorem index_settle (d : Disk) (key : String) (before after : Index) :
    (settle d key before after).index = after := by
  unfold settle
  split <;> rfl

theorem settle_eq_pure {before after : Index} {r r' : FileRecord}
    (h : settle d key before after = .pure r s') (hr : after.files.get? key = some r') :
    r = r' ∧ s' = after := by
  unfold settle at h
  split at h
  · cases h
  · rw [hr] at h
    cases h
    exact ⟨rfl, rfl⟩

/-! ## Texts and walks -/

@[simp]
theorem text_normalize (s : Index) (d : Disk) (uri : String) :
    s.text d (Uri.normalize uri) = s.text d uri := by
  simp [Index.text]

theorem text_of_open (h : s.buffers.get? (Uri.normalize uri) = some text) :
    s.text d uri = .ok (some text) := by
  simp [Index.text, h]

theorem text_of_closed_iff (h : s.buffers.get? (Uri.normalize uri) = none) :
    s.text d uri = .ok (some text) ↔ d.readText (Uri.toPath (Uri.normalize uri)) = .ok text := by
  cases hd : d.readText (Uri.toPath (Uri.normalize uri)) with
  | ok t => simp [Index.text, h, hd]
  | error e => cases e <;> simp [Index.text, h, hd]

theorem trace?_of_text (h : s.text d key = .ok (some text)) :
    s.trace? d key = .ok (s.traceOf? key text) := by
  simp [trace?, h]

theorem isOpen_eq_false_iff :
    s.isOpen uri = false ↔ s.buffers.get? (Uri.normalize uri) = none :=
  Table.has_eq_false_iff

theorem text_eq_embeddedNul_iff (hclosed : s.buffers.get? (Uri.normalize uri) = none) :
    s.text d uri = .error .embeddedNul ↔
      '\x00' ∈ (Uri.toPath (Uri.normalize uri)).toList := by
  constructor
  · intro h
    by_contra hn
    exact text_ne_embeddedNul s hn h
  · intro h
    simp [Index.text, hclosed, Disk.readText, Disk.readBytes, Disk.stat, h]

theorem traceOf?_congr (h : s'.config = s.config) (key text : String) :
    s'.traceOf? key text = s.traceOf? key text := by
  simp only [traceOf?, h]

theorem traceOf?_of_load {root : Node}
    (h : Lua.load s.config.version text = .ok root) :
    s.traceOf? key text =
      some (Walk.trace ⟨key, .ofText text, s.config.includeKeywords⟩ root) := by
  simp [traceOf?, h]

/-- A walk of a file is the walk of the tree of its text. -/
theorem exists_of_trace? {t : Trace} (h : s.trace? d key = .ok (some t)) :
    ∃ text root, s.text d key = .ok (some text) ∧
      Lua.load s.config.version text = .ok root ∧
      t = Walk.trace ⟨key, .ofText text, s.config.includeKeywords⟩ root := by
  unfold trace? at h
  split at h
  · next text htext =>
    cases hload : Lua.load s.config.version text with
    | error e => simp [traceOf?, hload] at h
    | ok root =>
      rw [traceOf?_of_load hload] at h
      cases h
      exact ⟨text, root, htext, hload, rfl⟩
  · cases h
  · cases h
  · cases h

/-- An open document is walked from its text. -/
theorem trace?_of_open (hkey : Uri.normalize key = key) (h : s.buffers.get? key = some text) :
    s.trace? d key = .ok (s.traceOf? key text) :=
  trace?_of_text (text_of_open (by rwa [hkey]))

/-! ## Indexing a file for the first time -/

theorem ensureIndexed_of_known {r : FileRecord} (h : s.files.get? (Uri.normalize uri) = some r) :
    s.ensureIndexed d uri = .pure r s := by
  simp [ensureIndexed, h]

/-- A file has a record once it was to be indexed, even if it could not be read. -/
theorem get?_ensureIndexed (d : Disk) (s : Index) (uri : String) :
    (s.ensureIndexed d uri).index.files.get? (Uri.normalize uri) ≠ none := by
  cases h : s.files.get? (Uri.normalize uri) with
  | none =>
    rw [ensureIndexed_of_unknown h, index_settle, (visited_visit d s _).made _ (.self h)]
    simp
  | some r =>
    rw [ensureIndexed_of_known h]
    simp [h]

/-! ## Indexing a file again -/

/-- The record with the bindings of the current text, no longer dirty. A text that gives
no walk leaves the bindings that were there. -/
def rebound (s : Index) (d : Disk) (key : String) (r : FileRecord) : FileRecord :=
  match s.trace? d key with
  | .ok (some t) => { r with toBindings := t.settled, dirty := false }
  | _ => { r with dirty := false }

@[simp]
theorem dirty_rebound (s : Index) (d : Disk) (key : String) (r : FileRecord) :
    (s.rebound d key r).dirty = false := by
  unfold rebound
  split <;> rfl

theorem get?_rebind_clean {r : FileRecord} (hr : s.files.get? key = some r) :
    ((s.modify key ({ · with dirty := false })).rebind d key).files.get? key =
      some (s.rebound d key r) := by
  have ht := (SameSetting.modify s key ({ · with dirty := false })).trace? d key
  unfold rebind rebound
  rw [ht]
  cases s.trace? d key with
  | error e => simp [get?_modify, hr]
  | ok t? => cases t? <;> simp [get?_modify, hr, FileRecord.withBindings, FileRecord.mapBindings]

/-- Indexing a file again binds it to its text and follows its imports. -/
theorem linked_reindex {r : FileRecord} (hr : s.files.get? key = some r) :
    Linked d key (s.imports d key) ((s.modify key ({ · with dirty := false })).rebind d key)
      (s.reindex d key).index := by
  have hclean : (s.modify key ({ · with dirty := false })).files.get? key ≠ none := by simp [hr]
  have hknown := get?_rebind_clean (d := d) hr
  rw [reindex, index_settle, fill_eq d (steady_visit d _) hclean,
    (SameSetting.modify s key _).imports]
  refine (links_foldl_visit (imports_subset s d key) (by simp [hknown]) ?_).spec (by simp [hknown])
  exact (card_unknownKeys_le _ d).trans (lt_chainBound d).le

theorem get?_reindex {r : FileRecord} (hr : s.files.get? key = some r) :
    (s.reindex d key).index.files.get? key =
      some ((s.imports d key).foldl (FileRecord.addImport key) (s.rebound d key r)) := by
  rw [(linked_reindex hr).own, get?_rebind_clean hr, Option.map_some]

theorem get?_reindex_of_ne {k : String} {r r' : FileRecord} (hr : s.files.get? key = some r)
    (hne : k ≠ key) (hk : s.files.get? k = some r') :
    (s.reindex d key).index.files.get? k = some r' := by
  refine (linked_reindex hr).kept k r' hne ?_
  rw [get?_rebind_of_ne _ _ hne, get?_modify, if_neg hne, hk]

theorem sameSetting_reindex {r : FileRecord} (hr : s.files.get? key = some r) :
    SameSetting s (s.reindex d key).index :=
  ((SameSetting.modify s key _).trans (.rebind d _ key)).trans (linked_reindex hr).same

theorem get?_rebind_clean_eq_none {k : String} {r : FileRecord} (hr : s.files.get? key = some r) :
    ((s.modify key ({ · with dirty := false })).rebind d key).files.get? k = none ↔
      s.files.get? k = none := by
  by_cases hne : k = key
  · subst hne
    simp [get?_rebind_clean hr, hr]
  · rw [get?_rebind_of_ne _ _ hne, get?_modify, if_neg hne]

theorem sameSetting_rebind_clean (s : Index) (d : Disk) (key : String) :
    SameSetting s ((s.modify key ({ · with dirty := false })).rebind d key) :=
  (SameSetting.modify s key _).trans (.rebind d _ key)

/-- Indexing a file again makes the first records of the keys that are fresh from its
imports. -/
theorem made_reindex {k dep : String} {r : FileRecord} (hr : s.files.get? key = some r)
    (hdep : dep ∈ s.imports d key) (hf : Fresh s d dep k) :
    (s.reindex d key).index.files.get? k = some (s.firstRecord d k) := by
  have hsame := s.sameSetting_rebind_clean d key
  rw [← hsame.firstRecord d k]
  refine (linked_reindex hr).made k dep hdep (hf.of_fewer hsame.symm fun k => ?_)
  exact (get?_rebind_clean_eq_none hr).2

/-- A record after indexing a file again is that of the file, or was there before, or is
the first one of a key that is fresh from the imports. -/
theorem record_of_reindex {k : String} {r r' : FileRecord} (hr : s.files.get? key = some r)
    (hr' : (s.reindex d key).index.files.get? k = some r') :
    (k = key ∧ r' = (s.imports d key).foldl (FileRecord.addImport key) (s.rebound d key r)) ∨
      (k ≠ key ∧ s.files.get? k = some r') ∨
      s.files.get? k = none ∧ (∃ dep ∈ s.imports d key, Fresh s d dep k) ∧
        r' = s.firstRecord d k := by
  by_cases hne : k = key
  · subst hne
    exact .inl ⟨rfl, Option.some.inj (hr'.symm.trans (get?_reindex hr))⟩
  · cases hold : s.files.get? k with
    | some r₀ => exact .inr (.inl ⟨hne, (get?_reindex_of_ne hr hne hold).symm.trans hr'⟩)
    | none =>
      have hsame := s.sameSetting_rebind_clean d key
      have hf : ∃ dep ∈ s.imports d key, Fresh s d dep k := by
        by_contra hf
        push Not at hf
        have hleft := (linked_reindex (d := d) hr).left k ((get?_rebind_clean_eq_none hr).2 hold)
          fun dep hdep h => hf dep hdep (h.of_fewer hsame fun _ =>
            (get?_rebind_clean_eq_none hr).1)
        rw [hleft] at hr'
        cases hr'
      obtain ⟨dep, hdep, hfresh⟩ := hf
      exact .inr (.inr ⟨rfl, ⟨dep, hdep, hfresh⟩,
        Option.some.inj (hr'.symm.trans (made_reindex hr hdep hfresh))⟩)

theorem knows_reindex {k : String} {r : FileRecord} (hr : s.files.get? key = some r)
    (hk : s.files.get? k ≠ none) : (s.reindex d key).index.files.get? k ≠ none := by
  by_cases hne : k = key
  · subst hne
    simp [get?_reindex hr]
  · obtain ⟨r', hr'⟩ := Option.ne_none_iff_exists'.1 hk
    simp [get?_reindex_of_ne hr hne hr']

/-! ## Bringing a record in step -/

/-- A file has a record, and that is clean. -/
def Clean (s : Index) (uri : String) : Prop := ∃ r, s.get? uri = some r ∧ r.dirty = false

@[simp]
theorem ensureIndexed_normalize (s : Index) (d : Disk) (uri : String) :
    s.ensureIndexed d (Uri.normalize uri) = s.ensureIndexed d uri := by
  simp [ensureIndexed]

@[simp]
theorem markDirty_normalize (s : Index) (d : Disk) (uri : String) :
    s.markDirty d (Uri.normalize uri) = s.markDirty d uri := by
  simp [markDirty]

@[simp]
theorem refresh_normalize (s : Index) (d : Disk) (uri : String) :
    s.refresh d (Uri.normalize uri) = s.refresh d uri := by
  simp [refresh]

theorem refresh_of_unknown (h : s.files.get? (Uri.normalize uri) = none) :
    s.refresh d uri = s.ensureIndexed d uri := by
  simp [refresh, ensureIndexed, h]

theorem refresh_of_dirty {r : FileRecord} (h : s.files.get? (Uri.normalize uri) = some r)
    (hd : r.dirty = true) : s.refresh d uri = s.reindex d (Uri.normalize uri) := by
  simp [refresh, h, hd]

theorem refresh_of_clean {r : FileRecord} (h : s.files.get? (Uri.normalize uri) = some r)
    (hd : r.dirty = false) : s.refresh d uri = .pure r s := by
  simp [refresh, h, hd]

/-- What a refresh of a file does when it succeeds. -/
structure Refreshed (uri : String) (s : Index) (r : FileRecord) (s' : Index) : Prop where
  same : SameSetting s s'
  own : s'.get? uri = some r
  clean : r.dirty = false
  others : ∀ k r', k ≠ Uri.normalize uri → s.files.get? k = some r' → s'.files.get? k = some r'
  idle : s.Clean uri → s' = s

theorem refreshed {r : FileRecord} (h : s.refresh d uri = .pure r s') :
    Refreshed uri s r s' := by
  cases hr : s.files.get? (Uri.normalize uri) with
  | none =>
    have hv := visited_visit d s (Uri.normalize uri)
    have hmade := hv.made _ (.self hr)
    rw [refresh_of_unknown hr, ensureIndexed_of_unknown hr] at h
    obtain ⟨rfl, rfl⟩ := settle_eq_pure h hmade
    refine ⟨hv.same, hmade, rfl, fun k r' _ hk => hv.kept k r' hk, ?_⟩
    rintro ⟨r', hr', -⟩
    cases hr.symm.trans hr'
  | some r₀ =>
    cases hd : r₀.dirty with
    | true =>
      rw [refresh_of_dirty hr hd] at h
      obtain rfl : (s.reindex d (Uri.normalize uri)).index = s' := by rw [h, index_pure]
      have hown := get?_reindex (d := d) hr
      have hsettle := hown
      rw [reindex, index_settle] at hsettle
      obtain ⟨rfl, -⟩ := settle_eq_pure h hsettle
      refine ⟨sameSetting_reindex hr, hown, ?_, fun k r' hne => get?_reindex_of_ne hr hne, ?_⟩
      · rw [FileRecord.dirty_foldl_addImport]
        exact dirty_rebound ..
      · rintro ⟨r', hr', hclean⟩
        cases hr.symm.trans hr'
        rw [hd] at hclean
        cases hclean
    | false =>
      rw [refresh_of_clean hr hd] at h
      cases h
      exact ⟨.refl s, hr, hd, fun _ _ _ hk => hk, fun _ => rfl⟩

/-- Clean records stay as they are. -/
theorem Refreshed.kept {r r' : FileRecord} {k : String} (h : Refreshed uri s r s')
    (hk : s.files.get? k = some r') (hclean : r'.dirty = false) : s'.files.get? k = some r' := by
  by_cases hne : k = Uri.normalize uri
  · subst hne
    rwa [h.idle ⟨r', hk, hclean⟩]
  · exact h.others k r' hne hk

/-! ## The callback of a walk -/

/-- Indexing a file that was found never fails. -/
theorem ensureIndexed_of_isFile (s : Index) {path : String} (h : d.isFile path = true) :
    ∃ r, s.ensureIndexed d (Uri.ofPath d.cwd (Path.absolute d.cwd path)) =
      .pure r (visit d (chainBound d) s (Uri.ofPath d.cwd (Path.absolute d.cwd path))) := by
  have hnormal := Uri.normalize_ofPath d.cwd (Path.absolute d.cwd path)
  cases hr : s.files.get? (Uri.ofPath d.cwd (Path.absolute d.cwd path)) with
  | none =>
    rw [ensureIndexed_of_unknown (by rwa [hnormal]), hnormal]
    exact ⟨_, settle_of_failure?_eq_none (failure?_of_isFile s h)
      ((visited_visit d s _).made _ (.self hr))⟩
  | some r =>
    rw [visit_of_known _ (by simp [hr])]
    exact ⟨r, ensureIndexed_of_known (by rwa [hnormal])⟩

/-- Indexing a file that was found links it as an import. -/
theorem indexDependency_of_isFile {path : String} (h : d.isFile path = true)
    (hkey : Uri.normalize key = key) :
    s.indexDependency d (some key) (Path.absolute d.cwd path) false =
      .pure (Uri.ofPath d.cwd (Path.absolute d.cwd path))
        (link (visit d (chainBound d)) key s (Uri.ofPath d.cwd (Path.absolute d.cwd path))) := by
  obtain ⟨r, hr⟩ := s.ensureIndexed_of_isFile h
  simp only [indexDependency, hr, pure_andThen, linkParent, hkey, link]
  rfl

theorem indexAll_of_isFile (hkey : Uri.normalize key = key) {paths : List String}
    (h : ∀ path ∈ paths, ∃ file, d.isFile file = true ∧ path = Path.absolute d.cwd file) :
    indexAll d (some key) false paths s = .pure (paths.map (Uri.ofPath d.cwd))
      ((paths.map (Uri.ofPath d.cwd)).foldl (link (visit d (chainBound d)) key) s) := by
  induction paths generalizing s with
  | nil => rfl
  | cons path paths ih =>
    obtain ⟨file, hfile, rfl⟩ := h path (by simp)
    rw [indexAll, indexDependency_of_isFile hfile hkey, pure_andThen,
      ih fun path hpath => h path (by simp [hpath])]
    rfl

/-- An include call in the walk of a file does what `resolve` does for it. -/
theorem resolve_eq (hkey : Uri.normalize key = key) (reference : String) (dotted : Bool) :
    s.resolve d (some key) reference dotted =
      .pure (s.find d (some key) reference dotted)
        (report d (visit d (chainBound d)) key s (.includeCall reference dotted)) := by
  rw [resolve, indexAll_of_isFile hkey fun path hpath => exists_of_mem_find hpath]
  rfl

end LuaSymbols.Index
