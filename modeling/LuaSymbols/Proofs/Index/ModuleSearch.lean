import Mathlib
import LuaSymbols.Proofs.Index.Closure

/-!
# The order of a module search

Every candidate of a module has a rank: the place where it is looked for and, in that place,
whether it is the module as it stands or with the suffix behind it (`Offers`). The candidates
are listed by rank (`pairwise_ranked`), and of the spellings of one file the first that
exists counts. So a file is found before another if some existing candidate for the one has a
rank below those of all existing candidates for the other (`find_ranked`).
-/

namespace LuaSymbols

/-- Of a list in the order of its ranks, the values that `eraseDups` leaves are in the order
of their first ranks. -/
theorem pairwise_eraseDups_of_ranked {ρ : Type} {before : ρ → ρ → Prop} (l : List (ρ × String))
    (h : l.Pairwise fun x y => before x.1 y.1) :
    (l.map Prod.snd).eraseDups.Pairwise fun p q =>
      ∃ r, (r, p) ∈ l ∧ ∀ r', (r', q) ∈ l → before r r' := by
  match l with
  | [] => simp
  | (r, p) :: l =>
    obtain ⟨hfirst, htail⟩ := List.pairwise_cons.1 h
    -- the first value goes, at all its ranks, and what is left is again in order
    let others := l.filter fun x => !x.2 == p
    have hlength : others.length ≤ l.length := List.length_filter_le _ l
    have ih := pairwise_eraseDups_of_ranked others (htail.filter _)
    have hothers : (l.map Prod.snd).filter (fun q => !q == p) = others.map Prod.snd := by
      rw [List.filter_map]
      rfl
    have hmem {r' : ρ} {q : String} (hq : q ∈ (others.map Prod.snd).eraseDups)
        (hr' : (r', q) ∈ (r, p) :: l) : (r', q) ∈ others := by
      rw [List.mem_eraseDups, List.mem_map] at hq
      obtain ⟨x, hx, rfl⟩ := hq
      have hne : x.2 ≠ p := by simpa using (List.mem_filter.1 hx).2
      have htail' : (r', x.2) ∈ l := by simpa [hne] using hr'
      exact List.mem_filter.2 ⟨htail', by simpa using hne⟩
    rw [List.map_cons, List.eraseDups_cons, hothers, List.pairwise_cons]
    refine ⟨fun q hq => ⟨r, List.mem_cons_self, fun r' hr' => ?_⟩, ?_⟩
    · exact hfirst _ (List.mem_filter.1 (hmem hq hr')).1
    · refine ih.imp_of_mem fun {p' q} _ hq hranks => ?_
      obtain ⟨r₁, hr₁, hbelow⟩ := hranks
      exact ⟨r₁, List.mem_cons_of_mem _ (List.mem_filter.1 hr₁).1,
        fun r' hr' => hbelow r' (hmem hq hr')⟩
termination_by l.length

/-! ## Ranks in a list of lists -/

/-- The items of a list of lists, each with the index of its list and its own there. -/
def ranked (ls : List (List String)) : List ((Nat ×ₗ Nat) × String) :=
  ls.zipIdx.flatMap fun (l, i) => l.zipIdx.map fun (c, j) => (toLex (i, j), c)

theorem map_snd_ranked (ls : List (List String)) : (ranked ls).map Prod.snd = ls.flatten := by
  simp [ranked, Function.comp_def, List.flatMap_def]

theorem mem_ranked {ls : List (List String)} {rank : Nat ×ₗ Nat} {c : String} :
    (rank, c) ∈ ranked ls ↔
      ∃ l, ls[(ofLex rank).1]? = some l ∧ l[(ofLex rank).2]? = some c := by
  obtain ⟨i, j⟩ := rank
  change (toLex (i, j), c) ∈ ranked ls ↔ ∃ l, ls[i]? = some l ∧ l[j]? = some c
  simp [ranked, List.mk_mem_zipIdx_iff_getElem?]

theorem pairwise_zipIdx {α : Type} (l : List α) : l.zipIdx.Pairwise fun x y => x.2 < y.2 := by
  have h : (l.zipIdx.map Prod.snd).Pairwise (· < ·) := by
    rw [List.zipIdx_map_snd]
    exact List.pairwise_lt_range'
  exact List.pairwise_map.1 h

theorem pairwise_ranked (ls : List (List String)) :
    (ranked ls).Pairwise fun x y => x.1 < y.1 := by
  refine List.pairwise_flatMap.2 ⟨fun (l, i) _ => ?_, ?_⟩
  · refine List.pairwise_map.2 ((pairwise_zipIdx l).imp fun {x y} hxy => ?_)
    exact Prod.Lex.toLex_lt_toLex.2 (.inr ⟨rfl, hxy⟩)
  · refine (pairwise_zipIdx ls).imp fun {x y} hxy a ha b hb => ?_
    obtain ⟨_, _, rfl⟩ := List.mem_map.1 ha
    obtain ⟨_, _, rfl⟩ := List.mem_map.1 hb
    exact Prod.Lex.toLex_lt_toLex.2 (.inl hxy)

/-! ## The places of a search -/

/-- Between the parts into which question marks cut the template stands the name. -/
theorem toList_fillTemplate (template name : String) :
    (fillTemplate template name).toList =
      name.toList.intercalate (template.toList.splitOn '?') := by
  rw [fillTemplate, String.toList_ofList]
  induction template.toList with
  | nil => rfl
  | cons c cs ih =>
    obtain ⟨part, parts, hparts⟩ := List.exists_cons_of_ne_nil (List.splitOn_ne_nil '?' cs)
    rw [List.flatMap_cons, ih, List.splitOn_cons_eq_if_modifyHead, hparts]
    by_cases hc : c = '?'
    · simp [hc]
    · cases parts <;> simp [hc]

namespace Index

/-- A module in a directory, as it stands or with the suffix. -/
inductive InDirectory (name dir : String) : Nat → String → Prop where
  | plain : InDirectory name dir 0 (Path.join dir name)
  | suffixed : InDirectory name dir 1 (Path.join dir (name ++ ".lua"))

/-- A candidate for a module, with the place where it is looked for and its spelling there.
The directory of the importing file is the first place, the workspace root the second, and the
search paths follow in their order. -/
inductive Offers (s : Index) (importer : Option String) (name : String) :
    Nat → Nat → String → Prop where
  | importer {uri c : String} {j : Nat} : importer = some uri → uri ≠ "" →
    InDirectory name (Path.directory (Uri.toPath uri)) j c → Offers s importer name 0 j c
  | root {c : String} {j : Nat} : InDirectory name s.root j c → Offers s importer name 1 j c
  | directory {path c : String} {i j : Nat} : s.config.searchPaths[i]? = some path →
    '?' ∉ path.toList → InDirectory name path j c → Offers s importer name (i + 2) j c
  | template {path c : String} {i : Nat} : s.config.searchPaths[i]? = some path →
    '?' ∈ path.toList → c.toList = name.toList.intercalate (path.toList.splitOn '?') →
    Offers s importer name (i + 2) 0 c

/-- An existing candidate of the given rank has the absolute form `path`. Ranks are ordered by
place first. -/
def Gives (s : Index) (d : Disk) (importer : Option String) (name : String) (rank : Nat ×ₗ Nat)
    (path : String) : Prop :=
  ∃ c, Offers s importer name (ofLex rank).1 (ofLex rank).2 c ∧ d.isFile c = true ∧
    Path.absolute d.cwd c = path

/-- What the directory of the importing file offers, if there is one. -/
def besideImporter (importer : Option String) (name : String) : List String :=
  match importer with
  | some uri => if uri = "" then [] else inDirectory name (Path.directory (Uri.toPath uri))
  | none => []

/-- What the places of a search offer, place by place. -/
def places (s : Index) (importer : Option String) (name : String) : List (List String) :=
  besideImporter importer name :: inDirectory name s.root ::
    s.config.searchPaths.map (onSearchPath name)

theorem candidates_eq (s : Index) (importer : Option String) (reference : String) (dotted : Bool) :
    s.candidates importer reference dotted =
      (s.places importer (modulePath reference dotted)).flatten := by
  unfold candidates places nearRoots besideImporter
  split
  · next uri =>
    by_cases huri : uri = "" <;> simp [huri, List.flatMap_def]
  · simp [List.flatMap_def]

theorem getElem?_inDirectory {name dir c : String} {j : Nat} :
    (inDirectory name dir)[j]? = some c ↔ InDirectory name dir j c := by
  constructor
  · intro h
    match j, h with
    | 0, h =>
      cases h
      exact .plain
    | 1, h =>
      cases h
      exact .suffixed
  · rintro (_ | _) <;> rfl

theorem getElem?_besideImporter {importer : Option String} {name c : String} {j : Nat} :
    (besideImporter importer name)[j]? = some c ↔ ∃ uri, importer = some uri ∧ uri ≠ "" ∧
      InDirectory name (Path.directory (Uri.toPath uri)) j c := by
  cases importer with
  | none => simp [besideImporter]
  | some uri =>
    rw [besideImporter]
    split <;> next huri => simp [huri, getElem?_inDirectory]

/-- The places offer what they are said to offer. -/
theorem offers_iff {s : Index} {importer : Option String} {name c : String} {i j : Nat} :
    Offers s importer name i j c ↔
      ∃ l, (s.places importer name)[i]? = some l ∧ l[j]? = some c := by
  constructor
  · intro h
    cases h with
    | importer himporter huri hc =>
      exact ⟨_, rfl, getElem?_besideImporter.2 ⟨_, himporter, huri, hc⟩⟩
    | root hc => exact ⟨_, rfl, getElem?_inDirectory.2 hc⟩
    | @directory path c i j hpath hplain hc =>
      refine ⟨onSearchPath name path, by simp [places, hpath], ?_⟩
      rw [onSearchPath, if_neg hplain]
      exact getElem?_inDirectory.2 hc
    | @template path c i hpath htemplate hc =>
      refine ⟨onSearchPath name path, by simp [places, hpath], ?_⟩
      rw [onSearchPath, if_pos htemplate, List.getElem?_cons_zero]
      exact congrArg some (String.toList_inj.1 ((toList_fillTemplate path name).trans hc.symm))
  · rintro ⟨l, hl, hc⟩
    match i, hl with
    | 0, hl =>
      cases hl
      obtain ⟨uri, himporter, huri, hc⟩ := getElem?_besideImporter.1 hc
      exact .importer himporter huri hc
    | 1, hl =>
      cases hl
      exact .root (getElem?_inDirectory.1 hc)
    | i + 2, hl =>
      simp only [places, List.getElem?_cons_succ, List.getElem?_map, Option.map_eq_some_iff] at hl
      obtain ⟨path, hpath, rfl⟩ := hl
      unfold onSearchPath at hc
      split at hc
      · next htemplate =>
        match j, hc with
        | 0, hc =>
          cases hc
          exact .template hpath htemplate (toList_fillTemplate path name)
      · next hplain => exact .directory hpath hplain (getElem?_inDirectory.1 hc)

/-! ## What a search finds -/

/-- The existing candidates, made absolute, each with its rank. -/
def existing (s : Index) (d : Disk) (importer : Option String) (name : String) :
    List ((Nat ×ₗ Nat) × String) :=
  ((ranked (s.places importer name)).filter (d.isFile ·.2)).map
    fun x => (x.1, Path.absolute d.cwd x.2)

theorem pairwise_existing (s : Index) (d : Disk) (importer : Option String) (name : String) :
    (s.existing d importer name).Pairwise fun x y => x.1 < y.1 :=
  List.pairwise_map.2 ((pairwise_ranked _).filter _)

theorem mem_existing {s : Index} {d : Disk} {importer : Option String} {name path : String}
    {rank : Nat ×ₗ Nat} :
    (rank, path) ∈ s.existing d importer name ↔ s.Gives d importer name rank path := by
  rw [existing, List.mem_map, Gives]
  constructor
  · rintro ⟨⟨rank', c⟩, hx, heq⟩
    cases heq
    obtain ⟨hranked, hfile⟩ := List.mem_filter.1 hx
    exact ⟨c, offers_iff.2 (mem_ranked.1 hranked), hfile, rfl⟩
  · rintro ⟨c, hoffers, hfile, rfl⟩
    exact ⟨(rank, c), List.mem_filter.2 ⟨mem_ranked.2 (offers_iff.1 hoffers), hfile⟩, rfl⟩

theorem find_eq {reference : String} (h : reference ≠ "") (s : Index) (d : Disk)
    (importer : Option String) (dotted : Bool) :
    s.find d importer reference dotted =
      ((s.existing d importer (modulePath reference dotted)).map Prod.snd).eraseDups := by
  rw [find, if_neg h, keepFirst_eq, candidates_eq, ← map_snd_ranked, List.filter_map, List.map_map,
    existing, List.map_map]
  rfl

/-- More search paths offer more behind what is there. -/
theorem places_append {s t : Index} {extra : List String} (hroot : t.root = s.root)
    (hpaths : t.config.searchPaths = s.config.searchPaths ++ extra) (importer : Option String)
    (name : String) :
    t.places importer name = s.places importer name ++ extra.map (onSearchPath name) := by
  rw [places, places, hroot, hpaths, List.map_append, List.cons_append, List.cons_append]

theorem find_prefix_of_append {s t : Index} {extra : List String} (hroot : t.root = s.root)
    (hpaths : t.config.searchPaths = s.config.searchPaths ++ extra) (d : Disk)
    (importer : Option String) (reference : String) (dotted : Bool) :
    s.find d importer reference dotted <+: t.find d importer reference dotted := by
  unfold find
  split
  · exact List.prefix_refl []
  · rw [keepFirst_eq, keepFirst_eq, candidates_eq, candidates_eq, places_append hroot hpaths,
      List.flatten_append, List.filter_append, List.map_append, List.eraseDups_append]
    exact List.prefix_append _ _

/-- **A module search is exact, and orders files by their first candidate.** The search finds,
each once, the absolute forms of the candidates that are files. A file comes before another
exactly as the first of the existing candidates for it has a lower rank than all those for the
other: by place, from the directory of the importing file over the workspace root to the search
paths, and in a directory as it stands before with the suffix. Search paths that are added
behind the others only add files behind those found. -/
theorem find_ranked {reference : String} (h : reference ≠ "") (s : Index) (d : Disk)
    (importer : Option String) (dotted : Bool) :
    (s.find d importer reference dotted).Nodup ∧
    (∀ path, path ∈ s.find d importer reference dotted ↔
      ∃ rank, s.Gives d importer (modulePath reference dotted) rank path) ∧
    (s.find d importer reference dotted).Pairwise (fun path later =>
      ∃ rank, s.Gives d importer (modulePath reference dotted) rank path ∧
        ∀ rank', s.Gives d importer (modulePath reference dotted) rank' later → rank < rank') ∧
    ∀ (t : Index) (extra : List String), t.root = s.root →
      t.config.searchPaths = s.config.searchPaths ++ extra →
      s.find d importer reference dotted <+: t.find d importer reference dotted := by
  have hmem (path : String) : path ∈ s.find d importer reference dotted ↔
      ∃ rank, s.Gives d importer (modulePath reference dotted) rank path := by
    simp [find_eq h, ← mem_existing]
  have hordered := pairwise_eraseDups_of_ranked _
    (s.pairwise_existing d importer (modulePath reference dotted))
  rw [← find_eq h] at hordered
  simp only [mem_existing] at hordered
  refine ⟨hordered.imp fun {path later} hranks heq => ?_, hmem, hordered,
    fun t extra hroot hpaths => find_prefix_of_append hroot hpaths d importer reference dotted⟩
  subst heq
  obtain ⟨rank, hgives, hbelow⟩ := hranks
  exact lt_irrefl rank (hbelow rank hgives)

/-- Four files for one module. Two search paths lead to the second of them in new spellings, and
only a template leads to the last. -/
def overlappingDisk : Disk :=
  .ofRoot [([['s', 'u', 'b']], .directory), ([['s', 'u', 'b'], ['a']], .file []),
    ([['a', '.', 'l', 'u', 'a']], .file []), ([['l', 'i', 'b']], .directory),
    ([['l', 'i', 'b'], ['a', '.', 'l', 'u', 'a']], .file []), ([['a']], .directory),
    ([['a'], ['a', '-', 'm', 'a', 'i', 'n']], .file [])]

def overlapping : Index :=
  create "/" "/" { searchPaths := ["?.lua", "sub/..", "lib", "./?/?-main"] }

theorem find_ranked_overlapping :
    let found := overlapping.find overlappingDisk (some "file:///sub/x.lua") "a" true
    found = ["/sub/a", "/a.lua", "/lib/a.lua", "/a/a-main"] ∧ found.Nodup ∧
      (∃ rank, overlapping.Gives overlappingDisk (some "file:///sub/x.lua") (modulePath "a" true)
        rank "/a/a-main") ∧
      (∃ rank, overlapping.Gives overlappingDisk (some "file:///sub/x.lua") (modulePath "a" true)
        rank "/a.lua" ∧
      ∀ rank', overlapping.Gives overlappingDisk (some "file:///sub/x.lua") (modulePath "a" true)
        rank' "/lib/a.lua" → rank < rank') ∧
      (create "/" "/" { searchPaths := ["?.lua", "sub/.."] }).find overlappingDisk
        (some "file:///sub/x.lua") "a" true <+: found := by
  intro found
  have hfound : found = ["/sub/a", "/a.lua", "/lib/a.lua", "/a/a-main"] := by decide +kernel
  obtain ⟨hnodup, hmem, hordered, -⟩ := find_ranked (by decide : "a" ≠ "") overlapping
    overlappingDisk (some "file:///sub/x.lua") true
  obtain ⟨-, -, -, hprefix⟩ := find_ranked (by decide : "a" ≠ "")
    (create "/" "/" { searchPaths := ["?.lua", "sub/.."] }) overlappingDisk
    (some "file:///sub/x.lua") true
  refine ⟨hfound, hnodup, (hmem "/a/a-main").1 ?_, ?_,
    hprefix overlapping ["lib", "./?/?-main"] rfl rfl⟩
  · change "/a/a-main" ∈ found
    simp [hfound]
  · change found.Pairwise _ at hordered
    rw [hfound] at hordered
    exact (List.pairwise_cons.1 (List.pairwise_cons.1 hordered).2).1 "/lib/a.lua" (by simp)

end Index

end LuaSymbols
