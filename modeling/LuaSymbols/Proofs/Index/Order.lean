import Mathlib
import LuaSymbols.Proofs.Index.Operations

/-!
# The order of first indexing

Files that are indexed one after the other may import each other, so which call walks a
shared import depends on their order. What is left does not: a record that is made holds
what its own text gives, whoever led to it, and the keys that get one are those that are
fresh from one of the files (`Gathered`). So two orders end with the same records
(`ensureAll_perm`).
-/

namespace LuaSymbols.Index

/-- Indexes files in turn and gives their records. -/
def ensureAll (d : Disk) : List String → Index → Outcome (List FileRecord)
  | [], s => .pure [] s
  | uri :: uris, s =>
    (s.ensureIndexed d uri).andThen fun r s => (ensureAll d uris s).map (r :: ·)

/-- What the index is after some files were met: the records that were there and the first
records of the keys that are fresh from one of them. -/
structure Gathered (d : Disk) (uris : List String) (s s' : Index) : Prop where
  same : SameSetting s s'
  kept : ∀ k r, s.files.get? k = some r → s'.files.get? k = some r
  made : ∀ k, ∀ uri ∈ uris, Fresh s d (Uri.normalize uri) k →
    s'.files.get? k = some (s.firstRecord d k)
  left : ∀ k, s.files.get? k = none → (∀ uri ∈ uris, ¬ Fresh s d (Uri.normalize uri) k) →
    s'.files.get? k = none

section
variable {d : Disk} {s s₁ s₂ s' : Index} {uri : String} {uris : List String}

/-- The first file is met in the index before, the others in the one it leaves. A key that
was fresh from one of these still is, unless the first file led to it. -/
theorem Gathered.cons (hv : Visited d (Uri.normalize uri) s s₁) (h : Gathered d uris s₁ s') :
    Gathered d (uri :: uris) s s' := by
  have hmade : ∀ k, Fresh s d (Uri.normalize uri) k →
      s'.files.get? k = some (s.firstRecord d k) := by
    intro k hf
    exact h.kept k _ (hv.made k hf)
  refine ⟨hv.same.trans h.same, fun k r hr => h.kept k r (hv.kept k r hr),
    fun k u hu hf => ?_, fun k hnone hf => ?_⟩
  · rcases List.mem_cons.1 hu with rfl | hu
    · exact hmade k hf
    · rcases hf.or_of_closed hv.same hv.left with hf | hf
      · exact hmade k hf
      · rw [h.made k u hu hf, hv.same.firstRecord d k]
  · refine h.left k (hv.left k hnone (hf uri (by simp))) fun u hu hf' => ?_
    exact hf u (by simp [hu]) (hf'.of_fewer hv.same fun _ hk => hv.unknown hk)

/-- What is left is known from the index before and from which files were met. -/
theorem Gathered.get?_eq {uris₁ uris₂ : List String} (hmem : ∀ u, u ∈ uris₁ ↔ u ∈ uris₂)
    (h₁ : Gathered d uris₁ s s₁) (h₂ : Gathered d uris₂ s s₂) (k : String) :
    s₁.files.get? k = s₂.files.get? k := by
  cases hk : s.files.get? k with
  | some r => rw [h₁.kept k r hk, h₂.kept k r hk]
  | none =>
    by_cases hf : ∃ u ∈ uris₁, Fresh s d (Uri.normalize u) k
    · obtain ⟨u, hu, hf⟩ := hf
      rw [h₁.made k u hu hf, h₂.made k u ((hmem u).1 hu) hf]
    · push Not at hf
      rw [h₁.left k hk hf, h₂.left k hk fun u hu => hf u ((hmem u).2 hu)]

/-- Indexing a file whose path has no NUL gives its record. -/
theorem ensureIndexed_eq_pure (s : Index) (d : Disk)
    (hnul : '\x00' ∉ (Uri.toPath (Uri.normalize uri)).toList) :
    ∃ r s', s.ensureIndexed d uri = .pure r s' ∧ s'.get? uri = some r ∧
      Visited d (Uri.normalize uri) s s' := by
  cases hr : s.files.get? (Uri.normalize uri) with
  | some r => exact ⟨r, s, ensureIndexed_of_known hr, hr, .of_known (by simp [hr])⟩
  | none =>
    have hv := visited_visit d s (Uri.normalize uri)
    have hmade := hv.made _ (.self hr)
    have hfailure : s.failure? d (Uri.normalize uri) = none :=
      (Fresh.self hr).failure? (by simpa using hnul)
    exact ⟨_, _, (ensureIndexed_of_unknown hr).trans (settle_of_failure?_eq_none hfailure hmade),
      hmade, hv⟩

/-- Indexing files in turn gives their records as they are at last. -/
theorem ensureAll_eq_pure (s : Index) (d : Disk)
    (hnul : ∀ u ∈ uris, '\x00' ∉ (Uri.toPath (Uri.normalize u)).toList) :
    ∃ rs s', ensureAll d uris s = .pure rs s' ∧ rs.map some = uris.map s'.get? ∧
      Gathered d uris s s' := by
  induction uris generalizing s with
  | nil =>
    exact ⟨[], s, rfl, rfl, .refl s, fun _ _ hr => hr, by simp, fun _ hnone _ => hnone⟩
  | cons uri uris ih =>
    obtain ⟨r, s₁, hr, hown, hv⟩ := s.ensureIndexed_eq_pure d (hnul uri (by simp))
    obtain ⟨rs, s', hrs, hall, hg⟩ := ih s₁ fun u hu => hnul u (by simp [hu])
    refine ⟨r :: rs, s', ?_, ?_, .cons hv hg⟩
    · rw [ensureAll, hr, pure_andThen, hrs]
      rfl
    · have hlast : s'.get? uri = some r := hg.kept _ r hown
      rw [List.map_cons, List.map_cons, hall, hlast]

end

end LuaSymbols.Index
