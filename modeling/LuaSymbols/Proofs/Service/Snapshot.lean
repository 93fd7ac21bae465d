import Mathlib
import LuaSymbols.Proofs.Index.Search
import LuaSymbols.Proofs.Service.Run

/-!
# Definition queries and their snapshot

A definition query brings records in step while it collects its answer, and each of
them may bring in new records through its imports. None of this touches a record that
is clean (`Refreshed`), so what was searched stays as it was searched: the answer is that
of `Index.lookUp`, a search that brings nothing in step, on the index after the query
(`definition_snapshot`). It takes that every global file has a record (`GlobalsKnown`); a
global file without one would be passed over and might get one later in the same query.
-/

namespace LuaSymbols

namespace Index

section
variable {d : Disk} {s s' : Index} {key uri : String} {α β : Type}

/-! ## The global files -/

/-- What a pass over some files leaves: they are clean, and what was clean is as it was. -/
structure Swept (uris : List String) (s s' : Index) : Prop where
  same : SameSetting s s'
  clean : ∀ uri ∈ uris, s'.Clean uri
  kept : ∀ k r, s.files.get? k = some r → r.dirty = false → s'.files.get? k = some r

theorem swept_globalDefinitions {o : Occurrence} {uris : List String} {ls : List Location}
    (hknown : ∀ uri ∈ uris, s.get? uri ≠ none)
    (h : globalDefinitions d o uris s = .pure ls s') :
    Swept uris s s' ∧ ls = uris.flatMap (s'.declared o) := by
  induction uris generalizing s ls with
  | nil =>
    cases h
    exact ⟨⟨.refl _, by simp, fun _ _ hk _ => hk⟩, rfl⟩
  | cons uri uris ih =>
    obtain ⟨r₀, hr₀⟩ := Option.ne_none_iff_exists'.1 (hknown uri (by simp))
    rw [globalDefinitions, hr₀] at h
    obtain ⟨r, s₁, hr, hmap⟩ := andThen_eq_pure h
    obtain ⟨ls, hrest, rfl⟩ := map_eq_pure hmap
    have hrefreshed := refreshed hr
    have hmoves := moves_refresh d s uri
    rw [hr, index_pure] at hmoves
    obtain ⟨hswept, rfl⟩ :=
      ih (fun uri huri => hmoves.knows (hknown uri (by simp [huri]))) hrest
    have hown : s'.get? uri = some r := hswept.kept _ r hrefreshed.own hrefreshed.clean
    refine ⟨⟨hrefreshed.same.trans hswept.same, ?_, fun k r' hk hclean => ?_⟩, ?_⟩
    · rintro u (_ | ⟨_, hu⟩)
      · exact ⟨r, hown, hrefreshed.clean⟩
      · exact hswept.clean u hu
    · exact hswept.kept k r' (hrefreshed.kept hk hclean) hclean
    · rw [List.flatMap_cons, declared_eq hown, hswept.same.config]

/-- A pass over clean files changes nothing. -/
theorem globalDefinitions_of_clean {o : Occurrence} {uris : List String}
    (h : ∀ uri ∈ uris, s.Clean uri) :
    globalDefinitions d o uris s = .pure (uris.flatMap (s.declared o)) s := by
  induction uris with
  | nil => rfl
  | cons uri uris ih =>
    obtain ⟨r, hr, hclean⟩ := h uri (by simp)
    rw [globalDefinitions, hr]
    dsimp only
    rw [refresh_of_clean hr hclean, pure_andThen, ih fun uri huri => h uri (by simp [huri]),
      List.flatMap_cons, declared_eq hr]
    rfl

/-! ## The query -/

theorem definition_of_clean {line character : Int}
    (h : ∀ u ∈ s.consulted uri line character, s.Clean u) :
    s.definition d uri line character = .pure (s.lookUp uri line character) s := by
  have huri : s.Clean uri := by
    refine h uri ?_
    unfold consulted
    split
    · simp
    · split <;> simp
  obtain ⟨r, hr, hclean⟩ := huri
  rw [definition, refresh_of_clean hr hclean, pure_andThen]
  cases ho : r.occurrenceAt? line character with
  | none => simp only [lookUp, occurrence?_eq hr, ho]
  | some o =>
    simp only [consulted, occurrence?_eq hr, ho, declared_eq hr] at h
    simp only [lookUp, occurrence?_eq hr, ho, declared_eq hr]
    cases hfound : r.definitions s.config.resolveFunctions o with
    | nil =>
      rw [hfound, if_pos rfl] at h
      exact globalDefinitions_of_clean fun u hu => h u (by simp [hu])
    | cons l ls => rfl

/-- What a query that returns leaves: the records that the search looks at are clean, and
the search gives its answer. -/
theorem definition_spec {line character : Int} {ls : List Location}
    (hglobals : ∀ g ∈ s.globals, s.get? g ≠ none)
    (h : s.definition d uri line character = .pure ls s') :
    ls = s'.lookUp uri line character ∧
      (∀ u ∈ s'.consulted uri line character, s'.Clean u) ∧ SameSetting s s' ∧
      ∀ o, s'.occurrence? uri line character = some o → s'.declared o uri ≠ [] →
        s' = (s.refresh d uri).index := by
  obtain ⟨r, s₁, hr, h⟩ := andThen_eq_pure h
  have hrefreshed := refreshed hr
  have hclean : s₁.Clean uri := ⟨r, hrefreshed.own, hrefreshed.clean⟩
  have hindex : s₁ = (s.refresh d uri).index := by rw [hr, index_pure]
  cases ho : r.occurrenceAt? line character with
  | none =>
    rw [ho] at h
    cases h
    have hocc := (occurrence?_eq hrefreshed.own line character).trans ho
    refine ⟨?_, ?_, hrefreshed.same, fun _ _ _ => hindex⟩
    · simp only [lookUp, hocc]
    · simpa only [consulted, hocc, List.mem_singleton, forall_eq] using hclean
  | some o =>
    rw [ho] at h
    dsimp only at h
    split at h
    · next hnone =>
      -- the global files are searched, which leaves the record that had no match
      have hmoves := moves_refresh d s uri
      rw [← hindex] at hmoves
      obtain ⟨hswept, rfl⟩ := swept_globalDefinitions
        (fun g hg => hmoves.knows (hglobals g (hrefreshed.same.globals ▸ hg))) h
      have hown : s'.get? uri = some r := hswept.kept _ r hrefreshed.own hrefreshed.clean
      have hocc := (occurrence?_eq hown line character).trans ho
      have hdeclared : s'.declared o uri = [] := by
        rw [declared_eq hown, hswept.same.config, hnone]
      refine ⟨?_, ?_, hrefreshed.same.trans hswept.same, fun o' ho' hne => ?_⟩
      · simp only [lookUp, hocc, hdeclared, if_true, hswept.same.globals]
      · simp only [consulted, hocc, hdeclared, if_true, hswept.same.globals, List.forall_mem_cons]
        exact ⟨⟨r, hown, hrefreshed.clean⟩, hswept.clean⟩
      · cases hocc.symm.trans ho'
        exact absurd hdeclared hne
    · next hfound =>
      cases h
      have hocc := (occurrence?_eq hrefreshed.own line character).trans ho
      have hdeclared := declared_eq hrefreshed.own o
      refine ⟨?_, ?_, hrefreshed.same, fun _ _ _ => hindex⟩
      · simp only [lookUp, hocc, hdeclared, if_neg hfound]
      · simpa only [consulted, hocc, hdeclared, if_neg hfound, List.mem_singleton, forall_eq]
          using hclean

/-! ## Global files have records -/

def GlobalsKnown (s : Index) : Prop := ∀ g ∈ s.globals, s.get? g ≠ none

/-- Only publishing a known file adds a global one. -/
theorem Move.mem_globals {g : String} (h : Move d s s') (hg : g ∈ s'.globals) :
    g ∈ s.globals ∨ ∃ path, g = Uri.ofPath d.cwd path ∧ s.files.get? g ≠ none := by
  cases h with
  | visit _ => exact .inl ((visited_visit d s _).same.globals ▸ hg)
  | reindex hr _ => exact .inl ((sameSetting_reindex hr).globals ▸ hg)
  | @publish path hknown =>
    unfold addGlobal at hg
    split at hg
    · exact .inl hg
    · rcases List.mem_append.1 hg with hg | hg
      · exact .inl hg
      · obtain rfl := List.mem_singleton.1 hg
        exact .inr ⟨path, rfl, hknown⟩
  | @storeNew uri text _ =>
    exact .inl ((visited_visit d (s.openDocument uri text) _).same.globals ▸ hg)
  | @link uri path _ =>
    exact .inl ((SameSetting.addImport s (Uri.normalize uri) (Uri.ofPath d.cwd path)).globals ▸ hg)
  | mark | configure | store | close => exact .inl hg

theorem GlobalsKnown.move (hs : s.GlobalsKnown) (h : Move d s s') : s'.GlobalsKnown := by
  intro g hg
  refine h.knows ?_
  rcases h.mem_globals hg with hg | ⟨path, rfl, hknown⟩
  · exact hs g hg
  · rwa [Uri.normalize_ofPath]

end

end Index

namespace Service

open Index

theorem Reachable.globalsKnown {s : Index} (h : Reachable s) : s.GlobalsKnown :=
  h.invariant (fun _ _ _ _ hg => by cases hg) fun _ _ _ hmove hs => hs.move hmove

/-- **Answers come from one snapshot.** A definition query that returns gives what the
search alone gives on the index after it. All records it looked at are clean there, a
match in the file itself leaves every other file alone, and asking again gives the same
answer and changes nothing. -/
theorem definition_snapshot {s s' : Index} (hs : Reachable s) {d : Disk} {uri : String}
    {line character : Int} {ls : List Location}
    (h : s.definition d uri line character = .pure ls s') :
    ls = s'.lookUp uri line character ∧
      (∀ u ∈ s'.consulted uri line character, s'.Clean u) ∧
      s'.globals = s.globals ∧ s'.config = s.config ∧
      (∀ o, s'.occurrence? uri line character = some o → s'.declared o uri ≠ [] →
        s' = (s.refresh d uri).index ∧ ∀ k r, k ≠ Uri.normalize uri →
          s.files.get? k = some r → s'.files.get? k = some r) ∧
      s'.definition d uri line character = .pure ls s' := by
  obtain ⟨rfl, hclean, hsame, hmatch⟩ := definition_spec hs.globalsKnown h
  obtain ⟨r, s₁, hr, -⟩ := andThen_eq_pure h
  refine ⟨rfl, hclean, hsame.globals, hsame.config, fun o ho hne => ?_,
    definition_of_clean hclean⟩
  have hindex := hmatch o ho hne
  refine ⟨hindex, fun k r' hne' hk => ?_⟩
  rw [hindex, hr]
  exact (refreshed hr).others k r' hne' hk

/-- The first script declares `f` in every way that there is and `t.f` in two, and uses `h`,
which the others declare. -/
def namesakes : Disk :=
  .ofRoot [([['a', '.', 'l', 'u', 'a']], .file ("local f function g(f) f=2 t.f=3 p(f,t.f,h) end " ++
      "function f() end function t.f() end").toUTF8.toList),
    ([['b', '.', 'l', 'u', 'a']], .file "require('a') h=1 function h() end".toUTF8.toList),
    ([['c', '.', 'l', 'u', 'a']], .file "h=3".toUTF8.toList)]

/-- The third script and the second are global, in this order, and all three are dirty. -/
def reconfigured : Index :=
  (Action.configure { resolveFunctions := true }).run namesakes
    ((Action.indexDependency none "b.lua" true).run namesakes
      ((Action.indexDependency none "c.lua" true).run namesakes (.create "/" "/" {})))

/-- Where places are: their files, and the columns of their starts. -/
def spots (ls : List Location) : List (String × Nat) :=
  ls.map fun l => (l.uri, l.range.start.character)

/-- A query at a column of the first script returns, the search alone gives these spots on the
index after it, and the query made again gives the same answer and changes nothing. -/
def Answered (s : Index) (column : Int) (expected : List (String × Nat)) : Prop :=
  ∃ ls s', s.definition namesakes "file:///a.lua" 0 column = .pure ls s' ∧
    spots (s'.lookUp "file:///a.lua" 0 column) = expected ∧
    s'.definition namesakes "file:///a.lua" 0 column = .pure ls s'

theorem definition_snapshot_reconfigured :
    Answered reconfigured 34 [("file:///a.lua", 6), ("file:///a.lua", 19), ("file:///a.lua", 22),
      ("file:///a.lua", 47)] ∧
    Answered reconfigured 38 [("file:///a.lua", 26), ("file:///a.lua", 64)] ∧
    Answered reconfigured 40 [("file:///c.lua", 0), ("file:///b.lua", 13), ("file:///b.lua", 17)] ∧
    Answered reconfigured 4 [] ∧
    Answered (.create "/" "/" {}) 34 [("file:///a.lua", 6), ("file:///a.lua", 19),
      ("file:///a.lua", 22)] := by
  have hanswered {s : Index} (hs : Reachable s) {column : Int} {expected : List (String × Nat)}
      (hspots : (s.definition namesakes "file:///a.lua" 0 column).result.toOption.map spots =
        some expected) : Answered s column expected := by
    rcases hq : s.definition namesakes "file:///a.lua" 0 column with ⟨_ | ls, s'⟩
    · rw [hq] at hspots
      cases hspots
    · rw [hq] at hspots
      obtain ⟨rfl, -, -, -, -, hagain⟩ := definition_snapshot hs hq
      exact ⟨_, s', hq, Option.some.inj hspots, hagain⟩
  have hreconfigured : Reachable reconfigured :=
    .step _ _ (.step _ _ (.step _ _ (.create "/" "/" {})))
  -- all queries at once, so that the scripts are indexed once
  have hspots : [34, 38, 40, 4].map (fun column =>
      (reconfigured.definition namesakes "file:///a.lua" 0 column).result.toOption.map spots) =
      [some [("file:///a.lua", 6), ("file:///a.lua", 19), ("file:///a.lua", 22),
          ("file:///a.lua", 47)],
        some [("file:///a.lua", 26), ("file:///a.lua", 64)],
        some [("file:///c.lua", 0), ("file:///b.lua", 13), ("file:///b.lua", 17)],
        some []] := by
    decide +kernel
  simp only [List.map_cons, List.map_nil, List.cons.injEq, and_true] at hspots
  obtain ⟨hname, hmember, hglobal, hnone⟩ := hspots
  exact ⟨hanswered hreconfigured hname, hanswered hreconfigured hmember,
    hanswered hreconfigured hglobal, hanswered hreconfigured hnone,
    hanswered (.create "/" "/" {}) (by decide +kernel)⟩

end Service

end LuaSymbols
