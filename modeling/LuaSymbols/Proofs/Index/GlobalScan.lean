import Mathlib
import LuaSymbols.Index.Scan
import LuaSymbols.Proofs.Index.Frame
import LuaSymbols.Proofs.Index.Growth
import LuaSymbols.Proofs.Index.ModuleSearch

/-!
# The scan for global files

A scan meets the scripts that its patterns match and makes each of them global (`enlist`).
Patterns may overlap and may spell one file in several ways, and to meet one script may be to
index others that are still to come, so both what is answered and what is global are cleared
of repetitions, each on its own. What is left is known from the matches alone: a match has a
rank, its pattern and then its path (`Matches`), and the keys come in the order of their first
ranks (`scan_ranked`).
-/

namespace LuaSymbols

/-! ## Keeping the first of equal items -/

theorem keepFirst_concat (l : List String) (a : String) :
    keepFirst (l ++ [a]) = if a ∈ keepFirst l then keepFirst l else keepFirst l ++ [a] := by
  rw [keepFirst, List.foldl_append]
  rfl

theorem nodup_keepFirst (l : List String) : (keepFirst l).Nodup := by
  induction l using List.reverseRecOn with
  | nil => exact List.nodup_nil
  | append_singleton l a ih =>
    rw [keepFirst_concat]
    split
    · exact ih
    · next hnew => simpa using List.Nodup.concat hnew ih

theorem mem_keepFirst {l : List String} {a : String} : a ∈ keepFirst l ↔ a ∈ l := by
  rw [Index.keepFirst_eq, List.mem_eraseDups]

/-- Items that are added one by one to a list, unless they are there, are those that are not,
each once. -/
theorem foldl_keep (l kept : List String) :
    l.foldl (fun kept a => if a ∈ kept then kept else kept ++ [a]) kept =
      kept ++ (keepFirst l).filter (· ∉ kept) := by
  -- from the back, where the last item meets all that is kept so far
  induction l using List.reverseRecOn with
  | nil => simp [keepFirst]
  | append_singleton l a ih =>
    rw [List.foldl_append, ih, keepFirst_concat]
    by_cases hkept : a ∈ kept <;> by_cases hfirst : a ∈ keepFirst l <;> simp [hkept, hfirst]

namespace Index

/-! ## Enlisting a file -/

/-- Meets a file and makes it global. -/
def enlist (d : Disk) (s : Index) (uri : String) : Index :=
  (visit d (chainBound d) s uri).addGlobal uri

section
variable {d : Disk} {root : String} {uris paths patterns : List String}

/-- A global file that is found is met and made global, and nothing can fail. -/
theorem indexDependency_global {path : String} (h : d.isFile path = true) (s : Index) :
    s.indexDependency d none path true =
      .pure (Uri.ofPath d.cwd path) (enlist d s (Uri.ofPath d.cwd path)) := by
  obtain ⟨r, hr⟩ := s.ensureIndexed_of_isFile h
  rw [Uri.ofPath_absolute] at hr
  rw [indexDependency, hr]
  rfl

theorem indexAll_global (h : ∀ path ∈ paths, d.isFile path = true) (s : Index) :
    indexAll d none true paths s = .pure (paths.map (Uri.ofPath d.cwd))
      ((paths.map (Uri.ofPath d.cwd)).foldl (enlist d) s) := by
  induction paths generalizing s with
  | nil => rfl
  | cons path paths ih =>
    rw [indexAll, indexDependency_global (h path (by simp)), pure_andThen,
      ih fun path hpath => h path (by simp [hpath])]
    rfl

theorem globals_enlist (d : Disk) (s : Index) (uri : String) :
    (enlist d s uri).globals =
      if uri ∈ s.globals then s.globals else s.globals ++ [uri] := by
  have hsame : (visit d (chainBound d) s uri).globals = s.globals :=
    (visited_visit d s uri).same.globals
  unfold enlist addGlobal
  rw [hsame]
  split
  · exact hsame
  · rfl

theorem known_enlist (d : Disk) (s : Index) (uri : String) :
    (enlist d s uri).files.get? uri ≠ none := by
  simpa [enlist] using (visited_visit d s uri).known

theorem knows_enlist {s : Index} {k : String} (h : s.files.get? k ≠ none) (uri : String) :
    (enlist d s uri).files.get? k ≠ none := by
  simpa [enlist] using (visited_visit d s uri).knows h

/-- A known global file is not enlisted again. -/
theorem enlist_of_known {s : Index} {uri : String} (hknown : s.files.get? uri ≠ none)
    (hglobal : uri ∈ s.globals) : enlist d s uri = s := by
  rw [enlist, visit_of_known _ hknown, addGlobal, if_pos hglobal]

theorem globals_enlistAll (d : Disk) (uris : List String) (s : Index) :
    (uris.foldl (enlist d) s).globals = s.globals ++ (keepFirst uris).filter (· ∉ s.globals) := by
  rw [← foldl_keep]
  induction uris generalizing s with
  | nil => rfl
  | cons uri uris ih => rw [List.foldl_cons, List.foldl_cons, ih, globals_enlist]

theorem known_enlistAll {s : Index} {k : String} (h : s.files.get? k ≠ none ∨ k ∈ uris) :
    (uris.foldl (enlist d) s).files.get? k ≠ none := by
  induction uris generalizing s with
  | nil => exact h.resolve_right (by simp)
  | cons uri uris ih =>
    refine ih ?_
    rcases h with hknown | hk
    · exact .inl (knows_enlist hknown uri)
    · rcases List.mem_cons.1 hk with rfl | hk
      · exact .inl (known_enlist d s k)
      · exact .inr hk

theorem enlistAll_of_known {s : Index}
    (h : ∀ uri ∈ uris, s.files.get? uri ≠ none ∧ uri ∈ s.globals) :
    uris.foldl (enlist d) s = s := by
  induction uris with
  | nil => rfl
  | cons uri uris ih =>
    obtain ⟨hknown, hglobal⟩ := h uri (by simp)
    rw [List.foldl_cons, enlist_of_known hknown hglobal]
    exact ih fun uri huri => h uri (by simp [huri])

/-! ## The matches of patterns -/

/-- The scripts that a pattern matches; none if it cannot be looked up. -/
def scriptsOf (d : Disk) (root pattern : String) : List String :=
  (scripts d root pattern).toOption.getD []

/-- A script that is a match has the key `uri`. The rank of a match is the index of the pattern
in the list and, behind it, the path. -/
def Matches (d : Disk) (root : String) (patterns : List String) (rank : Nat ×ₗ String)
    (uri : String) : Prop :=
  ∃ pattern found, patterns[(ofLex rank).1]? = some pattern ∧
    d.glob (Path.join root pattern) = .ok found ∧ (ofLex rank).2 ∈ found ∧
    d.isFile (ofLex rank).2 = true ∧
    Path.IsScriptName (Path.fileName (ofLex rank).2.toList) ∧
    Uri.ofPath d.cwd (ofLex rank).2 = uri

/-- The keys of the matches in the order in which they are met. -/
def metKeys (d : Disk) (root : String) (patterns : List String) : List String :=
  patterns.flatMap fun pattern => (scriptsOf d root pattern).map (Uri.ofPath d.cwd)

/-- The keys with the ranks of their matches. -/
def rankedKeys (d : Disk) (root : String) (patterns : List String) :
    List ((Nat ×ₗ String) × String) :=
  patterns.zipIdx.flatMap fun (pattern, i) =>
    (scriptsOf d root pattern).map fun path => (toLex (i, path), Uri.ofPath d.cwd path)

theorem scriptsOf_of_glob {pattern : String} {found : List String}
    (h : d.glob (Path.join root pattern) = .ok found) :
    scriptsOf d root pattern = found.filter fun p => d.isFile p && Path.isLua p := by
  rw [scriptsOf, scripts, h]
  rfl

theorem scriptsOf_of_error {pattern : String} {e : Disk.AccessError}
    (h : d.glob (Path.join root pattern) = .error e) : scriptsOf d root pattern = [] := by
  rw [scriptsOf, scripts, h]
  rfl

theorem mem_scriptsOf {pattern path : String} :
    path ∈ scriptsOf d root pattern ↔ ∃ found, d.glob (Path.join root pattern) = .ok found ∧
      path ∈ found ∧ d.isFile path = true ∧ Path.IsScriptName (Path.fileName path.toList) := by
  cases hglob : d.glob (Path.join root pattern) with
  | error e => simp [scriptsOf_of_error hglob]
  | ok found => simp [scriptsOf_of_glob hglob, Path.isLua_iff]

theorem isFile_of_mem_scriptsOf {pattern path : String} (h : path ∈ scriptsOf d root pattern) :
    d.isFile path = true := by
  obtain ⟨_, _, _, hfile, _⟩ := mem_scriptsOf.1 h
  exact hfile

theorem pairwise_glob {pattern : String} {found : List String} (h : d.glob pattern = .ok found) :
    found.Pairwise (· ≤ ·) := by
  unfold Disk.glob at h
  split at h
  · cases h
  · cases h
    exact List.pairwise_mergeSort' (· ≤ ·) _

theorem pairwise_scriptsOf (d : Disk) (root pattern : String) :
    (scriptsOf d root pattern).Pairwise (· ≤ ·) := by
  cases hglob : d.glob (Path.join root pattern) with
  | error e =>
    rw [scriptsOf_of_error hglob]
    exact .nil
  | ok found =>
    rw [scriptsOf_of_glob hglob]
    exact (pairwise_glob hglob).filter _

theorem mem_rankedKeys {rank : Nat ×ₗ String} {uri : String} :
    (rank, uri) ∈ rankedKeys d root patterns ↔ Matches d root patterns rank uri := by
  obtain ⟨i, path⟩ := rank
  change (toLex (i, path), uri) ∈ rankedKeys d root patterns ↔
    Matches d root patterns (toLex (i, path)) uri
  simp only [rankedKeys, Matches, List.mem_flatMap, List.mem_map, Prod.exists,
    List.mk_mem_zipIdx_iff_getElem?, mem_scriptsOf, ofLex_toLex]
  constructor
  · rintro ⟨pattern, j, hpattern, path', ⟨found, hfound, hpath, hfile, hscript⟩, heq⟩
    cases heq
    exact ⟨pattern, found, hpattern, hfound, hpath, hfile, hscript, rfl⟩
  · rintro ⟨pattern, found, hpattern, hfound, hpath, hfile, hscript, rfl⟩
    exact ⟨pattern, i, hpattern, path, ⟨found, hfound, hpath, hfile, hscript⟩, rfl⟩

theorem pairwise_rankedKeys (d : Disk) (root : String) (patterns : List String) :
    (rankedKeys d root patterns).Pairwise fun x y => x.1 ≤ y.1 := by
  refine List.pairwise_flatMap.2 ⟨fun (pattern, i) _ => ?_, ?_⟩
  · refine List.pairwise_map.2 ((pairwise_scriptsOf d root pattern).imp fun {x y} hxy => ?_)
    exact Prod.Lex.toLex_le_toLex.2 (.inr ⟨rfl, hxy⟩)
  · refine (pairwise_zipIdx patterns).imp fun {x y} hxy a ha b hb => ?_
    obtain ⟨_, _, rfl⟩ := List.mem_map.1 ha
    obtain ⟨_, _, rfl⟩ := List.mem_map.1 hb
    exact Prod.Lex.toLex_le_toLex.2 (.inl hxy)

theorem map_snd_rankedKeys (d : Disk) (root : String) (patterns : List String) :
    (rankedKeys d root patterns).map Prod.snd = metKeys d root patterns := by
  rw [metKeys]
  conv_rhs => rw [← List.zipIdx_map_fst 0 patterns, List.flatMap_map]
  simp only [rankedKeys, List.map_flatMap, List.map_map, Function.comp_def]

theorem metKeys_cons (d : Disk) (root pattern : String) (patterns : List String) :
    metKeys d root (pattern :: patterns) =
      (scriptsOf d root pattern).map (Uri.ofPath d.cwd) ++ metKeys d root patterns :=
  List.flatMap_cons

theorem indexMatches_eq
    (h : ∀ pattern ∈ patterns, ∃ found, d.glob (Path.join root pattern) = .ok found) (s : Index) :
    indexMatches d root patterns s = .pure (metKeys d root patterns)
      ((metKeys d root patterns).foldl (enlist d) s) := by
  induction patterns generalizing s with
  | nil => rfl
  | cons pattern patterns ih =>
    obtain ⟨found, hfound⟩ := h pattern (by simp)
    have hscripts : scripts d root pattern = .ok (scriptsOf d root pattern) := by
      rw [scriptsOf, scripts, hfound]
      rfl
    unfold indexMatches
    rw [hscripts]
    dsimp only
    rw [indexAll_global fun path => isFile_of_mem_scriptsOf, pure_andThen,
      ih fun pattern hpattern => h pattern (by simp [hpattern]), metKeys_cons, List.foldl_append]
    rfl

theorem Matches.key_eq {rank : Nat ×ₗ String} {uri uri' : String}
    (h : Matches d root patterns rank uri) (h' : Matches d root patterns rank uri') :
    uri = uri' := by
  obtain ⟨_, _, _, _, _, _, _, rfl⟩ := h
  obtain ⟨_, _, _, _, _, _, _, rfl⟩ := h'
  rfl

/-- A pattern that comes in another list too matches what it did there. -/
theorem Matches.of_subset {again : List String} (hsubset : again ⊆ patterns)
    {rank : Nat ×ₗ String} {uri : String} (h : Matches d root again rank uri) :
    ∃ rank', Matches d root patterns rank' uri := by
  obtain ⟨pattern, found, hpattern, hmatch⟩ := h
  obtain ⟨i, hi⟩ := List.getElem?_of_mem (hsubset (List.mem_of_getElem? hpattern))
  exact ⟨toLex (i, (ofLex rank).2), pattern, found, hi, hmatch⟩

/-! ## What a scan does -/

/-- The keys that a scan answers with. -/
def matchedKeys (d : Disk) (root : String) (patterns : List String) : List String :=
  keepFirst (metKeys d root patterns)

theorem mem_matchedKeys {uri : String} :
    uri ∈ matchedKeys d root patterns ↔ ∃ rank, Matches d root patterns rank uri := by
  rw [matchedKeys, mem_keepFirst, ← map_snd_rankedKeys]
  simp [← mem_rankedKeys]

/-- The rank of a match determines its key, so the first ranks of two keys are not equal. -/
theorem pairwise_matchedKeys (d : Disk) (root : String) (patterns : List String) :
    (matchedKeys d root patterns).Pairwise fun uri later =>
      ∃ rank, Matches d root patterns rank uri ∧
        ∀ rank', Matches d root patterns rank' later → rank < rank' := by
  have hordered := pairwise_eraseDups_of_ranked _ (pairwise_rankedKeys d root patterns)
  rw [← keepFirst_eq, map_snd_rankedKeys] at hordered
  refine ((nodup_keepFirst _).and hordered).imp fun {uri later} hboth => ?_
  obtain ⟨hne, rank, hrank, hleast⟩ := hboth
  rw [mem_rankedKeys] at hrank
  refine ⟨rank, hrank, fun rank' hrank' => lt_of_le_of_ne (hleast _ (mem_rankedKeys.2 hrank')) ?_⟩
  rintro rfl
  exact hne (hrank.key_eq hrank')

theorem scan_eq
    (h : ∀ pattern ∈ patterns, ∃ found, d.glob (Path.join root pattern) = .ok found) (s : Index) :
    s.scan d root patterns = .pure (matchedKeys d root patterns)
      ((metKeys d root patterns).foldl (enlist d) s) := by
  rw [scan, indexMatches_eq h]
  rfl

/-- A scan whose matches are all known and global changes nothing. -/
theorem scan_of_known {s : Index}
    (h : ∀ pattern ∈ patterns, ∃ found, d.glob (Path.join root pattern) = .ok found)
    (hknown : ∀ uri ∈ matchedKeys d root patterns, s.files.get? uri ≠ none ∧ uri ∈ s.globals) :
    s.scan d root patterns = .pure (matchedKeys d root patterns) s := by
  rw [scan_eq h, enlistAll_of_known]
  intro uri huri
  exact hknown uri (mem_keepFirst.2 huri)

end

/-- **A scan registers each script that is matched once, in order, and a second scan adds
nothing.** If the patterns can be looked up, the scan succeeds. Its answer has, each once, the
keys of the matches that are scripts, in the order of their first ranks: by pattern, then by
path. The global files are those of before and, behind them, the keys of the answer that were
not among them; all keys of the answer have records. A scan by any of the same patterns, in any
order and number, then leaves the index as it is. -/
theorem scan_ranked {patterns : List String} (s : Index) (d : Disk) (root : String)
    (h : ∀ pattern ∈ patterns, ∃ found, d.glob (Path.join root pattern) = .ok found) :
    ∃ uris s', s.scan d root patterns = .pure uris s' ∧ uris.Nodup ∧
      (∀ uri, uri ∈ uris ↔ ∃ rank, Matches d root patterns rank uri) ∧
      uris.Pairwise (fun uri later => ∃ rank, Matches d root patterns rank uri ∧
        ∀ rank', Matches d root patterns rank' later → rank < rank') ∧
      s'.globals = s.globals ++ uris.filter (· ∉ s.globals) ∧
      (∀ uri ∈ uris, s'.files.get? uri ≠ none) ∧
      ∀ again, again ⊆ patterns → ∃ uris', s'.scan d root again = .pure uris' s' := by
  have hglobals := globals_enlistAll d (metKeys d root patterns) s
  have hknown (uri : String) (huri : uri ∈ matchedKeys d root patterns) :
      ((metKeys d root patterns).foldl (enlist d) s).files.get? uri ≠ none :=
    known_enlistAll (.inr (mem_keepFirst.1 huri))
  refine ⟨_, _, scan_eq h s, nodup_keepFirst _, fun uri => mem_matchedKeys,
    pairwise_matchedKeys d root patterns, hglobals, hknown, fun again hsubset => ?_⟩
  refine ⟨_, scan_of_known (fun pattern hpattern => h pattern (hsubset hpattern)) ?_⟩
  intro uri huri
  obtain ⟨rank, hrank⟩ := mem_matchedKeys.1 huri
  have hfirst := mem_matchedKeys.2 (hrank.of_subset hsubset)
  refine ⟨hknown uri hfirst, ?_⟩
  rw [hglobals, List.mem_append, List.mem_filter]
  by_cases hold : uri ∈ s.globals
  · exact .inl hold
  · exact .inr ⟨hfirst, by simpa using hold⟩

/-- Matches that are met in order need no sorting. -/
theorem glob_of_sorted {d : Disk} {pattern : String} {found : List String}
    (hwhole : (Glob.fixedDirectory? pattern.toList).any ('\x00' ∈ ·) = false)
    (hfound : (d.globFrom (pattern.length + 1) false pattern.toList).map String.ofList = found)
    (hsorted : found.Pairwise (· ≤ ·)) : d.glob pattern = .ok found := by
  rw [Disk.glob, hwhole, hfound, List.mergeSort_of_pairwise (by simpa using hsorted)]
  rfl

/-- Scripts with their suffix in either letter case, a text, and a directory named like a script. -/
def assorted : Disk :=
  .ofRoot [([['X', '.', 'L', 'U', 'A']], .file "require('a')".toUTF8.toList),
    ([['a', '.', 'l', 'u', 'a']], .file "require('b')".toUTF8.toList),
    ([['b', '.', 'l', 'u', 'a']], .file []), ([['d', '.', 'l', 'u', 'a']], .directory),
    ([['t', '.', 't', 'x', 't']], .file [])]

theorem scan_ranked_assorted :
    let patterns := ["b.lua", "*", "../a.lua"]
    ∃ uris s', (create "/" "/" {}).scan assorted "/" patterns = .pure uris s' ∧
      uris = ["file:///b.lua", "file:///X.LUA", "file:///a.lua"] ∧ s'.globals = uris ∧
      ∃ uris', s'.scan assorted "/" patterns.reverse = .pure uris' s' := by
  intro patterns
  have hb : assorted.glob (Path.join "/" "b.lua") = .ok ["/b.lua"] :=
    glob_of_sorted (by decide +kernel) (by decide +kernel) (by decide +kernel)
  have hall : assorted.glob (Path.join "/" "*") =
      .ok ["/X.LUA", "/a.lua", "/b.lua", "/d.lua", "/t.txt"] :=
    glob_of_sorted (by decide +kernel) (by decide +kernel) (by decide +kernel)
  have ha : assorted.glob (Path.join "/" "../a.lua") = .ok ["/../a.lua"] :=
    glob_of_sorted (by decide +kernel) (by decide +kernel) (by decide +kernel)
  have hlookup : ∀ pattern ∈ patterns, ∃ found,
      assorted.glob (Path.join "/" pattern) = .ok found := by
    simp [patterns, hb, hall, ha]
  have hkeys : matchedKeys assorted "/" patterns =
      ["file:///b.lua", "file:///X.LUA", "file:///a.lua"] := by
    simp only [matchedKeys, patterns, metKeys_cons, scriptsOf_of_glob hb, scriptsOf_of_glob hall,
      scriptsOf_of_glob ha]
    decide +kernel
  obtain ⟨uris, s', hscan, -, -, -, hglobals, -, hagain⟩ :=
    scan_ranked (create "/" "/" {}) assorted "/" hlookup
  have huris : uris = matchedKeys assorted "/" patterns := by
    have hsame := hscan.symm.trans (scan_eq hlookup (create "/" "/" {}))
    exact Except.ok.inj (congrArg Outcome.result hsame)
  refine ⟨uris, s', hscan, huris.trans hkeys, ?_, hagain _ (List.reverse_subset.2 ?_)⟩
  · simpa [create] using hglobals
  · exact List.Subset.refl _

end Index

end LuaSymbols
