import Mathlib
import LuaSymbols.Proofs.Disk.Location
import LuaSymbols.Proofs.Index.Fill

/-!
# Following imports

The imports of a key are the edges of the walk of its current text. Indexing a file
follows them through the keys that have no record. `Links d key deps s s'` is that
recursion without a bound on its depth: the imports `deps` of `key` are met one by
one, an unknown one is registered and its own imports come first.

What such a run leaves is known from the index before it alone (`Links.spec`):
every record that was there stays, but for the edges that `key` gets, and the new
records are those of the `Fresh` keys, each with its own walk and its own edges.
-/

namespace LuaSymbols

namespace FileRecord

variable (key : String) (deps : List String) (r : FileRecord)

theorem foldl_addDependency :
    deps.foldl addDependency r =
      let add (kept : List String) (a : String) := if a ∈ kept then kept else kept ++ [a]
      { r with dependencies := deps.foldl add r.dependencies } := by
  induction deps generalizing r with
  | nil => rfl
  | cons dep deps ih =>
    rw [List.foldl_cons, ih]
    unfold addDependency
    split <;> simp_all

/-- The imports of a file add their edges, unless its key is empty. -/
theorem foldl_addImport :
    deps.foldl (addImport key) r = if key = "" then r else deps.foldl addDependency r := by
  by_cases h : key = ""
  · have hf : addImport key = fun r _ => r := by
      funext r dep
      exact if_pos h
    rw [if_pos h, hf, List.foldl_fixed]
  · have hf : addImport key = addDependency := by
      funext r dep
      exact if_neg h
    rw [if_neg h, hf]

@[simp]
theorem toBindings_addImport (dep : String) :
    (r.addImport key dep).toBindings = r.toBindings := by
  unfold addImport addDependency
  split
  · rfl
  · split <;> rfl

@[simp]
theorem dirty_addImport (dep : String) : (r.addImport key dep).dirty = r.dirty := by
  unfold addImport addDependency
  split
  · rfl
  · split <;> rfl

@[simp]
theorem toBindings_foldl_addImport :
    (deps.foldl (addImport key) r).toBindings = r.toBindings := by
  induction deps generalizing r with
  | nil => rfl
  | cons dep deps ih => rw [List.foldl_cons, ih, toBindings_addImport]

@[simp]
theorem dirty_foldl_addImport : (deps.foldl (addImport key) r).dirty = r.dirty := by
  induction deps generalizing r with
  | nil => rfl
  | cons dep deps ih => rw [List.foldl_cons, ih, dirty_addImport]

end FileRecord

namespace Index

/-- The edges of a new record are its imports, each once. -/
theorem firstRecord_eq (s : Index) (d : Disk) (key : String) :
    (s.imports d key).foldl (FileRecord.addImport key)
      { toBindings := s.ownBindings d key, uri := key } = s.firstRecord d key := by
  rw [FileRecord.foldl_addImport, FileRecord.foldl_addDependency, firstRecord]
  split <;> rfl

/-! ## Fresh keys -/

/-- The keys that imports lead to from `key`, through keys without a record. -/
inductive Fresh (s : Index) (d : Disk) (key : String) : String → Prop where
  | self : s.files.get? key = none → Fresh s d key key
  | step {k dep : String} : Fresh s d key k → dep ∈ s.imports d k → s.files.get? dep = none →
      Fresh s d key dep

namespace Fresh

variable {s s₁ : Index} {d : Disk} {key k : String}

theorem target (h : Fresh s d key k) : s.files.get? k = none := by
  cases h <;> assumption

theorem source (h : Fresh s d key k) : s.files.get? key = none := by
  induction h with
  | self h => exact h
  | step _ _ _ ih => exact ih

theorem trans {k₂ : String} (h : Fresh s d key k) (h₂ : Fresh s d k k₂) : Fresh s d key k₂ := by
  induction h₂ with
  | self _ => exact h
  | step _ hdep hnone ih => exact .step ih hdep hnone

/-- Fewer records leave more keys fresh. -/
theorem of_fewer (hs : SameSetting s s₁)
    (hfewer : ∀ k, s₁.files.get? k = none → s.files.get? k = none) (h : Fresh s₁ d key k) :
    Fresh s d key k := by
  induction h with
  | self h => exact .self (hfewer _ h)
  | step _ hdep hnone ih => exact .step ih (hs.imports d _ ▸ hdep) (hfewer _ hnone)

/-- Once `key` is known, what was fresh from it is fresh from one of its imports: the
part of a chain behind its last visit to `key` never meets `key` again. -/
theorem iff_of_entered (hs : SameSetting s s₁) (hkey : s.files.get? key = none)
    (hk : ∀ k, s₁.files.get? k = none ↔ s.files.get? k = none ∧ k ≠ key) :
    Fresh s d key k ↔ k = key ∨ ∃ dep ∈ s.imports d key, Fresh s₁ d dep k := by
  constructor
  · intro h
    induction h with
    | self _ => exact .inl rfl
    | @step k dep _ hdep hnone ih =>
      by_cases he : dep = key
      · exact .inl he
      have hdep₁ : s₁.files.get? dep = none := (hk dep).2 ⟨hnone, he⟩
      rcases ih with rfl | ⟨first, hfirst, hchain⟩
      · exact .inr ⟨dep, hdep, .self hdep₁⟩
      · exact .inr ⟨first, hfirst, .step hchain ((hs.imports d k).symm ▸ hdep) hdep₁⟩
  · rintro (rfl | ⟨dep, hdep, h⟩)
    · exact .self hkey
    · have hfresh : Fresh s d dep k := h.of_fewer hs fun k hk' => ((hk k).1 hk').1
      exact (Fresh.step (.self hkey) hdep hfresh.source).trans hfresh

/-- Once all that was fresh from `key` is known, a key that was fresh from `dep` still
is, or it was fresh from `key` too. -/
theorem or_of_closed {dep : String} (hs : SameSetting s s₁)
    (hk : ∀ k, s.files.get? k = none → ¬ Fresh s d key k → s₁.files.get? k = none)
    (h : Fresh s d dep k) : Fresh s d key k ∨ Fresh s₁ d dep k := by
  induction h with
  | self hnone =>
    by_cases hf : Fresh s d key dep
    · exact .inl hf
    · exact .inr (.self (hk _ hnone hf))
  | @step k dep' _ hdep hnone ih =>
    by_cases hf : Fresh s d key dep'
    · exact .inl hf
    rcases ih with ih | ih
    · exact .inl (.step ih hdep hnone)
    · exact .inr (.step ih ((hs.imports d k).symm ▸ hdep) (hk _ hnone hf))

end Fresh

/-! ## The recursion without a bound -/

/-- `deps` are met in turn as imports of `key`, which turns `s` into `s'`. A known one
only adds an edge. An unknown one is registered, bound and followed first. -/
inductive Links (d : Disk) : String → List String → Index → Index → Prop where
  | done (key : String) (s : Index) : Links d key [] s s
  | known {key dep : String} {deps : List String} {s s' : Index} :
      s.files.get? dep ≠ none → Links d key deps (s.addImport key dep) s' →
      Links d key (dep :: deps) s s'
  | unknown {key dep : String} {deps : List String} {s s₁ s' : Index} :
      s.files.get? dep = none →
      Links d dep (s.imports d dep) ((s.register dep).rebind d dep) s₁ →
      Links d key deps (s₁.addImport key dep) s' → Links d key (dep :: deps) s s'

/-- What the index is after `key` was met: the records that were there and the first
records of the fresh keys. -/
structure Visited (d : Disk) (key : String) (s s' : Index) : Prop where
  same : SameSetting s s'
  kept : ∀ k r, s.files.get? k = some r → s'.files.get? k = some r
  made : ∀ k, Fresh s d key k → s'.files.get? k = some (s.firstRecord d k)
  left : ∀ k, s.files.get? k = none → ¬ Fresh s d key k → s'.files.get? k = none

/-- What the index is after `deps` were met as imports of the known file `key`. -/
structure Linked (d : Disk) (key : String) (deps : List String) (s s' : Index) : Prop where
  same : SameSetting s s'
  own : s'.files.get? key = (s.files.get? key).map (deps.foldl (FileRecord.addImport key))
  kept : ∀ k r, k ≠ key → s.files.get? k = some r → s'.files.get? k = some r
  made : ∀ k, ∀ dep ∈ deps, Fresh s d dep k → s'.files.get? k = some (s.firstRecord d k)
  left : ∀ k, s.files.get? k = none → (∀ dep ∈ deps, ¬ Fresh s d dep k) →
    s'.files.get? k = none

section
variable {d : Disk} {key dep : String} {deps : List String} {s s₁ s' : Index}

/-- A known file is met without a change. -/
theorem Visited.of_known (h : s.files.get? key ≠ none) : Visited d key s s where
  same := .refl s
  kept _ _ hr := hr
  made _ hf := absurd hf.source h
  left _ hnone _ := hnone

/-- An unknown file is met by registering it and meeting its imports. -/
theorem Linked.visited (hkey : s.files.get? key = none)
    (h : Linked d key (s.imports d key) ((s.register key).rebind d key) s') :
    Visited d key s s' := by
  have hs : SameSetting s ((s.register key).rebind d key) :=
    (SameSetting.register s key).trans (.rebind d _ key)
  have hk := get?_rebind_register_eq_none s d key
  have hfresh : ∀ k, Fresh s d key k ↔ _ := fun k => Fresh.iff_of_entered (k := k) hs hkey hk
  refine ⟨hs.trans h.same, fun k r hr => ?_, fun k hf => ?_, fun k hnone hf => ?_⟩
  · have hne : k ≠ key := by
      rintro rfl
      rw [hkey] at hr
      cases hr
    refine h.kept k r hne ?_
    rw [get?_rebind_of_ne _ _ hne, get?_register, if_neg hne, hr]
  · rcases (hfresh k).1 hf with rfl | ⟨dep, hdep, hf⟩
    · rw [h.own, get?_rebind_register, Option.map_some, firstRecord_eq]
    · rw [h.made k dep hdep hf, hs.firstRecord d k]
  · rw [hfresh k] at hf
    push Not at hf
    exact h.left k ((hk k).2 ⟨hnone, hf.1⟩) hf.2

/-- What is unknown at last was unknown at first. -/
theorem Visited.unknown (h : Visited d key s s') {k : String} (hk : s'.files.get? k = none) :
    s.files.get? k = none := by
  by_contra hsome
  obtain ⟨r, hr⟩ := Option.ne_none_iff_exists'.1 hsome
  rw [h.kept k r hr] at hk
  cases hk

/-- A record after meeting a file was there before, or is the first one of a key that is
fresh from it. -/
theorem Visited.of_record (h : Visited d key s s') {k : String} {r : FileRecord}
    (hr : s'.files.get? k = some r) :
    s.files.get? k = some r ∨
      s.files.get? k = none ∧ Fresh s d key k ∧ r = s.firstRecord d k := by
  cases hold : s.files.get? k with
  | some r₀ => exact .inl ((h.kept k r₀ hold).symm.trans hr)
  | none =>
    have hf : Fresh s d key k := by
      by_contra hf
      rw [h.left k hold hf] at hr
      cases hr
    exact .inr ⟨rfl, hf, Option.some.inj (hr.symm.trans (h.made k hf))⟩

theorem Linked.cons (hkey : s.files.get? key ≠ none) (hv : Visited d dep s s₁)
    (h : Linked d key deps (s₁.addImport key dep) s') : Linked d key (dep :: deps) s s' := by
  have hs : SameSetting s (s₁.addImport key dep) := hv.same.trans (.addImport s₁ key dep)
  have hget : ∀ k, k ≠ key → (s₁.addImport key dep).files.get? k = s₁.files.get? k := by
    intro k hne
    rw [get?_addImport, if_neg hne]
  have hne : ∀ k, s.files.get? k = none → k ≠ key := by
    rintro k hnone rfl
    exact hkey hnone
  have hleft : ∀ k, s.files.get? k = none → ¬ Fresh s d dep k →
      (s₁.addImport key dep).files.get? k = none := by
    intro k hnone hf
    rw [hget k (hne k hnone), hv.left k hnone hf]
  have hmade : ∀ k, Fresh s d dep k → s'.files.get? k = some (s.firstRecord d k) := by
    intro k hf
    have hk := hne k hf.target
    exact h.kept k _ hk ((hget k hk).trans (hv.made k hf))
  refine ⟨hs.trans h.same, ?_, fun k r hk hr => ?_, fun k dep' hdep' hf => ?_,
    fun k hnone hf => ?_⟩
  · obtain ⟨r, hr⟩ := Option.ne_none_iff_exists'.1 hkey
    rw [h.own, get?_addImport, if_pos rfl, hv.kept key r hr, hr]
    rfl
  · exact h.kept k r hk ((hget k hk).trans (hv.kept k r hr))
  · rcases List.mem_cons.1 hdep' with rfl | hdep'
    · exact hmade k hf
    · rcases hf.or_of_closed hs hleft with hf | hf
      · exact hmade k hf
      · rw [h.made k dep' hdep' hf, hs.firstRecord d k]
  · refine h.left k (hleft k hnone (hf dep (by simp))) fun dep' hdep' hf' => ?_
    refine hf dep' (by simp [hdep']) (hf'.of_fewer hs fun k hk => ?_)
    exact hv.unknown (by simpa using hk)

theorem Links.spec (h : Links d key deps s s') (hkey : s.files.get? key ≠ none) :
    Linked d key deps s s' := by
  induction h with
  | done key s =>
    exact ⟨.refl s, by simp, fun _ _ _ hr => hr, by simp, fun _ hnone _ => hnone⟩
  | known hdep _ ih =>
    exact .cons hkey (.of_known hdep) (ih (by simpa using hkey))
  | @unknown key dep deps s s₁ s' hdep _ _ ih₁ ih₂ =>
    have hv : Visited d dep s s₁ := (ih₁ (by simp [get?_rebind_register])).visited hdep
    obtain ⟨r, hr⟩ := Option.ne_none_iff_exists'.1 hkey
    have hkey₁ : s₁.files.get? key ≠ none := by simp [hv.kept key r hr]
    exact .cons hkey hv (ih₂ (by simpa using hkey₁))

end

end Index

end LuaSymbols
