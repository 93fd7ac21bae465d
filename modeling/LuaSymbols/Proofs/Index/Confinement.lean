import Mathlib
import LuaSymbols.Index.Module
import LuaSymbols.Proofs.Path.NormalForm

/-!
# Modules below the directories they are looked for in

A dotted reference has no dot left once it is a path, so nothing in it goes up: joined to a
directory it names a path below that directory (`Path.below_joinChars`). This asks for a
reference that starts with a name. A dot at its head becomes a slash like every other one, and
a path that starts with a slash is looked for from the root, whatever the directory
(`dotted_module_confined`).
-/

namespace LuaSymbols

namespace Path

/-! ## Below a directory -/

/-- `p` lies below the directory `dir`: its absolute form is that of `dir` with names behind
it, at least one. -/
def Below (cwd dir p : List Char) : Prop :=
  ∃ names, names ≠ [] ∧ AreNames names ∧
    absoluteChars cwd p = joinChars (absoluteChars cwd dir) names

theorem join_of_absolute {p : String} (h : isAbsoluteChars p.toList = true) (base : String) :
    join base p = p := by
  rw [join, joinChars_of_absolute h, String.ofList_toList]

/-- It does not matter which two of three are joined first. -/
theorem joinChars_joinChars {cwd p : List Char} (hcwd : cwd ≠ [])
    (hp : isAbsoluteChars p = false) (dir : List Char) :
    joinChars cwd (joinChars dir p) = joinChars (joinChars cwd dir) p := by
  cases hdir : isAbsoluteChars dir with
  | true =>
    rw [joinChars_of_absolute (isAbsoluteChars_joinChars hdir p), joinChars_of_absolute hdir]
  | false =>
    by_cases hnil : dir = []
    · subst hnil
      by_cases hslash : cwd.getLast? = some '/' <;> simp [joinChars, hp, hdir, hcwd, hslash]
    · have happend (t : List Char) : isAbsoluteChars (dir ++ t) = false := by
        rw [isAbsoluteChars_eq, List.head?_append_of_ne_nil _ hnil, ← isAbsoluteChars_eq, hdir]
      have hlast : (cwd ++ dir).getLast? = dir.getLast? :=
        List.getLast?_append_of_ne_nil _ hnil
      have hlast' : (cwd ++ '/' :: dir).getLast? = dir.getLast? := by
        rw [List.getLast?_append_of_ne_nil _ (by simp), List.getLast?_cons_of_ne_nil hnil]
      by_cases hslash : cwd.getLast? = some '/' <;> by_cases hend : dir.getLast? = some '/' <;>
        simp [joinChars, hp, hdir, hcwd, hnil, hslash, hend, happend, hlast, hlast']

theorem rootSlashes_joinChars {base p : List Char} (hbase : isAbsoluteChars base = true)
    (hp : isAbsoluteChars p = false) : rootSlashes (joinChars base p) = rootSlashes base := by
  have hhead (rest : List Char) : p ≠ '/' :: rest := by
    rintro rfl
    cases hp
  obtain ⟨rest, rfl⟩ : ∃ rest, base = '/' :: rest := by
    cases base with
    | nil => cases hbase
    | cons c rest => exact ⟨rest, by simpa [isAbsoluteChars_eq] using hbase⟩
  -- a slash at the end of the directory takes no other behind it
  obtain ⟨t, ht, hslash⟩ : ∃ t, joinChars ('/' :: rest) p = '/' :: rest ++ t ∧
      (('/' :: rest).getLast? = some '/' → t = p) := by
    unfold joinChars
    rw [if_neg (by simp [hp])]
    split
    · exact ⟨p, rfl, fun _ => rfl⟩
    · next h => exact ⟨'/' :: p, rfl, fun hlast => absurd (.inr hlast) h⟩
  rw [ht]
  rcases rest with _ | ⟨c₁, _ | ⟨c₂, rest⟩⟩
  · simp [hslash rfl, rootSlashes, hhead]
  · by_cases h₁ : c₁ = '/'
    · subst h₁
      simp [hslash rfl, rootSlashes]
    · simp [rootSlashes, h₁]
  · by_cases h₁ : c₁ = '/' <;> by_cases h₂ : c₂ = '/' <;> simp [rootSlashes, h₁, h₂]

/-- Names seen from a directory are behind the normal form of the directory. -/
theorem normalizeChars_joinChars {base names : List Char} (hbase : isAbsoluteChars base = true)
    (hnames : AreNames names) (hne : names ≠ []) :
    normalizeChars (joinChars base names) = joinChars (normalizeChars base) names := by
  have hrelative := hnames.isAbsoluteChars_eq_false
  have hroot := isAbsoluteChars_iff.1 hbase
  have hsame := rootSlashes_joinChars hbase hrelative
  have hkept := isName_of_mem_keptParts hbase
  have hparts : keptParts (joinChars base names) = keptParts base ++ names.splitOn '/' := by
    rw [keptParts_joinChars hbase hrelative, foldl_push_of_names (hnames.resolve_left hne),
      List.reverse_append, List.reverse_reverse, List.reverse_reverse]
  rw [normalizeChars_of_rootSlashes (by omega), normalizeChars_of_rootSlashes (by omega), hsame,
    hparts, joinChars, if_neg (by simp [hrelative])]
  by_cases hnil : keptParts base = []
  · have hlast : (List.replicate (rootSlashes base) '/').getLast? = some '/' := by
      rcases hroot with h | h <;> simp [h, List.replicate_succ]
    rw [hnil, List.nil_append, List.intercalate_splitOn, List.intercalate_nil, List.append_nil,
      if_pos (.inr hlast)]
  · -- the directory ends in a name, so a slash has to go between
    have hsplit : (['/'].intercalate (keptParts base)).splitOn '/' = keptParts base :=
      List.splitOn_intercalate _ (fun part hpart => (hkept part hpart).2) hnil
    have hlast : (['/'].intercalate (keptParts base)).getLast? ≠ some '/' := by
      intro hlast
      obtain ⟨init, hinit⟩ := List.getLast?_eq_some_iff.1 hlast
      rw [hinit, List.splitOn_append_cons_self] at hsplit
      exact (hkept [] (by simp [← hsplit])).1.1 rfl
    have hsome : ['/'].intercalate (keptParts base) ≠ [] := by
      intro hempty
      rw [hempty] at hsplit
      exact (hkept [] (by simp [← hsplit])).1.1 rfl
    rw [if_neg (by simp [hsome, hlast]), List.append_assoc, ← hsplit,
      ← List.splitOn_append_cons_self, List.intercalate_splitOn, List.intercalate_splitOn]

/-- Names that are joined to a directory lie below it. -/
theorem below_joinChars {cwd names : List Char} (hcwd : isAbsoluteChars cwd = true)
    (hnames : AreNames names) (hne : names ≠ []) (dir : List Char) :
    Below cwd dir (joinChars dir names) := by
  refine ⟨names, hne, hnames, ?_⟩
  have hsome : cwd ≠ [] := by
    rintro rfl
    cases hcwd
  rw [absoluteChars, joinChars_joinChars hsome hnames.isAbsoluteChars_eq_false,
    normalizeChars_joinChars (isAbsoluteChars_joinChars hcwd dir) hnames hne, absoluteChars]

/-! ## Paths without dots -/

theorem not_mem_of_mem_splitOn {c : Char} (hc : c ≠ '/') {p part : List Char} (h : c ∉ p)
    (hpart : part ∈ p.splitOn '/') : c ∉ part := by
  intro hmem
  have hwhole : ['/'].intercalate (p.splitOn '/') = p := List.intercalate_splitOn '/'
  rw [← hwhole, mem_intercalate hc] at h
  exact h ⟨part, hpart, hmem⟩

theorem isName_of_no_dot {part : List Char} (hne : part ≠ []) (h : '.' ∉ part) : IsName part := by
  refine ⟨hne, ?_, ?_⟩
  · rintro rfl
    simp at h
  · rintro rfl
    simp [parent] at h

/-- Without dots every component but an empty one is kept. -/
theorem foldl_push_of_no_dot {parts : List (List Char)} (h : ∀ part ∈ parts, '.' ∉ part)
    (rooted : Bool) (kept : List (List Char)) :
    parts.foldl (push rooted) kept = (parts.filter (· ≠ [])).reverse ++ kept := by
  induction parts generalizing kept with
  | nil => rfl
  | cons part parts ih =>
    rw [List.foldl_cons, ih fun q hq => h q (List.mem_cons_of_mem _ hq)]
    by_cases hnil : part = []
    · simp [hnil, push]
    · have hname := isName_of_no_dot hnil (h part List.mem_cons_self)
      rw [push_of_isName hname, List.filter_cons_of_pos (by simpa using hnil), List.reverse_cons,
        List.append_assoc, List.singleton_append]

theorem rootSlashes_ne_zero_iff {p : List Char} : rootSlashes p ≠ 0 ↔ p.head? = some '/' := by
  unfold rootSlashes
  split
  · simp
  · simp
  · simp
  · next h =>
    refine iff_of_false (by simp) fun hhead => ?_
    obtain ⟨cs, rfl⟩ := List.head?_eq_some_iff.1 hhead
    exact h cs rfl

/-- The normal form of a path without dots: slashes at its head, then names. -/
theorem normalizeChars_of_no_dot {p : List Char} (h : '.' ∉ p) (hne : p ≠ []) :
    ∃ names, AreNames names ∧ (rootSlashes p = 0 → names ≠ []) ∧
      normalizeChars p = List.replicate (rootSlashes p) '/' ++ names := by
  have hparts : keptParts p = (p.splitOn '/').filter (· ≠ []) := by
    rw [keptParts, foldl_push_of_no_dot fun part => not_mem_of_mem_splitOn (by decide) h,
      List.append_nil, List.reverse_reverse]
  have hmem (part : List Char) (hpart : part ∈ keptParts p) : IsName part ∧ '/' ∉ part := by
    rw [hparts, List.mem_filter] at hpart
    exact ⟨isName_of_no_dot (by simpa using hpart.2) (not_mem_of_mem_splitOn (by decide) h hpart.1),
      separator_not_mem_of_mem_splitOn hpart.1⟩
  have hsplit (hsome : keptParts p ≠ []) :
      (['/'].intercalate (keptParts p)).splitOn '/' = keptParts p :=
    List.splitOn_intercalate _ (fun part hpart => (hmem part hpart).2) hsome
  have hnames : AreNames (['/'].intercalate (keptParts p)) := by
    by_cases hnil : keptParts p = []
    · exact .inl (by rw [hnil, List.intercalate_nil])
    · refine .inr fun part hpart => ?_
      rw [hsplit hnil] at hpart
      exact (hmem part hpart).1
  have hsome : rootSlashes p = 0 → ['/'].intercalate (keptParts p) ≠ [] := by
    -- the first component holds the first character
    intro hroot hnil
    obtain ⟨c, cs, rfl⟩ := List.exists_cons_of_ne_nil hne
    have hc : c ≠ '/' := by simpa using mt rootSlashes_ne_zero_iff.2 (not_not.2 hroot)
    obtain ⟨first, more, hcs⟩ := List.exists_cons_of_ne_nil (List.splitOn_ne_nil '/' cs)
    have hfirst : c :: first ∈ keptParts (c :: cs) := by
      rw [hparts, List.splitOn_cons_eq_if_modifyHead, if_neg (by simpa using hc), hcs]
      simp
    have hcut := hsplit (List.ne_nil_of_mem hfirst)
    rw [hnil] at hcut
    rw [← hcut] at hfirst
    simp at hfirst
  refine ⟨_, hnames, hsome, ?_⟩
  by_cases hroot : rootSlashes p = 0
  · obtain ⟨c, cs, hcs⟩ := List.exists_cons_of_ne_nil (hsome hroot)
    simp [normalizeChars, hroot, hcs]
  · exact normalizeChars_of_rootSlashes hroot

theorem AreNames.parent_not_mem {names : List Char} (h : AreNames names) (slashes : Nat) :
    parent ∉ (List.replicate slashes '/' ++ names).splitOn '/' := by
  induction slashes with
  | zero =>
    rcases h with rfl | h
    · simp [parent]
    · exact fun hmem => (h parent hmem).2.2 rfl
  | succ n ih =>
    rw [List.replicate_succ, List.cons_append, List.splitOn_cons_eq_if_modifyHead,
      if_pos (beq_self_eq_true '/')]
    simpa [parent] using ih

/-- A suffix is part of the last name. -/
theorem AreNames.append {names suffix : List Char} (h : AreNames names) (hne : names ≠ [])
    (hslash : '/' ∉ suffix) (hlong : 2 ≤ suffix.length) : AreNames (names ++ suffix) := by
  have hlast {last : List Char} (hlast : IsName last) : IsName (last ++ suffix) := by
    have hlength : 3 ≤ (last ++ suffix).length := by
      have hsome := List.length_pos_iff.2 hlast.1
      rw [List.length_append]
      omega
    refine ⟨?_, ?_, ?_⟩ <;> intro heq <;> simp [heq, parent] at hlength
  replace h := h.resolve_left hne
  refine .inr fun part hpart => ?_
  by_cases hmem : '/' ∈ names
  · -- the names are cut at their last slash
    obtain ⟨tail, init, hcut, htail⟩ := List.eq_append_cons_of_mem (List.mem_reverse.2 hmem)
    obtain rfl : names = init.reverse ++ '/' :: tail.reverse := by
      rw [← List.reverse_reverse names, hcut]
      simp
    have htail' : '/' ∉ tail.reverse := by simpa using htail
    rw [List.splitOn_append_cons_self, List.splitOn_eq_singleton htail'] at h
    have hend : '/' ∉ tail.reverse ++ suffix := by simp [htail, hslash]
    rw [List.append_assoc, List.cons_append, List.splitOn_append_cons_self,
      List.splitOn_eq_singleton hend, List.mem_append, List.mem_singleton] at hpart
    rcases hpart with hpart | rfl
    · exact h part (List.mem_append_left _ hpart)
    · exact hlast (h _ (by simp))
  · rw [List.splitOn_eq_singleton hmem] at h
    rw [List.splitOn_eq_singleton (by simp [hmem, hslash]), List.mem_singleton] at hpart
    exact hpart ▸ hlast (h names (by simp))

end Path

/-! ## Candidates of dotted references -/

/-- The reference starts with a separator, so that no name stands at its head. -/
def LeadsOut (reference : String) : Prop :=
  reference.toList.head? = some '.' ∨ reference.toList.head? = some '/'

instance (reference : String) : Decidable (LeadsOut reference) :=
  inferInstanceAs (Decidable (_ ∨ _))

/-- The path of a dotted reference: slashes at its head if it leads out, then names. -/
theorem modulePath_dotted {reference : String} (h : reference ≠ "") :
    ∃ slashes names, (slashes ≠ 0 ↔ LeadsOut reference) ∧ (slashes = 0 → names ≠ []) ∧
      Path.AreNames names ∧
      (modulePath reference true).toList = List.replicate slashes '/' ++ names := by
  let path := reference.toList.map fun c => if c = '.' then '/' else c
  have hdot : '.' ∉ path := by
    intro hmem
    obtain ⟨c, -, hc⟩ := List.mem_map.1 hmem
    split at hc <;> simp_all
  have hne : path ≠ [] := by simpa [path] using h
  obtain ⟨names, hnames, hsome, hpath⟩ := Path.normalizeChars_of_no_dot hdot hne
  refine ⟨Path.rootSlashes path, names, ?_, hsome, hnames, ?_⟩
  · rw [Path.rootSlashes_ne_zero_iff, List.head?_map, LeadsOut]
    cases reference.toList.head? with
    | none => simp
    | some c => by_cases hc : c = '.' <;> simp [hc]
  · rw [modulePath, if_pos rfl, Path.normalize, String.toList_ofList, String.toList_ofList]
    exact hpath

namespace Index

/-- The directories in which a module is looked for. -/
def directories (s : Index) (importer : Option String) : List String :=
  s.nearRoots importer ++ s.config.searchPaths.filter ('?' ∉ ·.toList)

theorem mem_candidates {s : Index} {importer : Option String} {reference c : String}
    {dotted : Bool} :
    c ∈ s.candidates importer reference dotted ↔
      (∃ dir ∈ s.directories importer, c ∈ inDirectory (modulePath reference dotted) dir) ∨
      ∃ template ∈ s.config.searchPaths, '?' ∈ template.toList ∧
        c = fillTemplate template (modulePath reference dotted) := by
  unfold candidates directories onSearchPath
  simp only [List.mem_append, List.mem_flatMap, List.mem_filter]
  constructor
  · rintro (⟨dir, hdir, hc⟩ | ⟨path, hpath, hc⟩)
    · exact .inl ⟨dir, .inl hdir, hc⟩
    · split at hc
      · next htemplate => exact .inr ⟨path, hpath, htemplate, List.mem_singleton.1 hc⟩
      · next hplain => exact .inl ⟨path, .inr ⟨hpath, by simpa using hplain⟩, hc⟩
  · rintro (⟨dir, hdir | ⟨hdir, hplain⟩, hc⟩ | ⟨template, htemplate, hmark, rfl⟩)
    · exact .inl ⟨dir, hdir, hc⟩
    · exact .inr ⟨dir, hdir, by rwa [if_neg (by simpa using hplain)]⟩
    · exact .inr ⟨template, htemplate, by simp [hmark]⟩

/-- **A dotted reference stays below the directories it is looked for in, unless it starts with
a separator.** Its path never has a `..` in it. A candidate is a filled template, or is joined
to one of the directories. Where the reference starts with a name, its path is relative and
what is joined to a directory lies below that directory. Where it starts with a dot or a slash,
its path is absolute, and what is joined to a directory is the path itself. -/
theorem dotted_module_confined (d : Disk) {reference : String} (h : reference ≠ "") :
    Path.parent ∉ (modulePath reference true).toList.splitOn '/' ∧
    (∀ (s : Index) (importer : Option String) (c : String),
      c ∈ s.candidates importer reference true ↔
        (∃ dir ∈ s.directories importer, c ∈ inDirectory (modulePath reference true) dir) ∨
        ∃ template ∈ s.config.searchPaths, '?' ∈ template.toList ∧
          c = fillTemplate template (modulePath reference true)) ∧
    (¬ LeadsOut reference → Path.isAbsoluteChars (modulePath reference true).toList = false ∧
      ∀ dir, ∀ c ∈ inDirectory (modulePath reference true) dir,
        Path.Below d.cwd.toList dir.toList c.toList) ∧
    (LeadsOut reference → Path.isAbsoluteChars (modulePath reference true).toList = true ∧
      ∀ dir, inDirectory (modulePath reference true) dir =
        [modulePath reference true, modulePath reference true ++ ".lua"]) := by
  obtain ⟨slashes, names, hslashes, hsome, hnames, hpath⟩ := modulePath_dotted h
  refine ⟨?_, fun s importer c => mem_candidates, fun hin => ?_, fun hout => ?_⟩
  · rw [hpath]
    exact hnames.parent_not_mem slashes
  · obtain rfl : slashes = 0 := by simpa using mt hslashes.1 hin
    rw [List.replicate_zero, List.nil_append] at hpath
    have hsuffixed : Path.AreNames (names ++ ".lua".toList) :=
      hnames.append (hsome rfl) (by decide) (by decide)
    refine ⟨hpath ▸ hnames.isAbsoluteChars_eq_false, fun dir c hc => ?_⟩
    rcases List.mem_pair.1 hc with rfl | rfl
    · rw [Path.join, String.toList_ofList, hpath]
      exact Path.below_joinChars d.rooted hnames (hsome rfl) _
    · rw [Path.join, String.toList_ofList, String.toList_append, hpath]
      exact Path.below_joinChars d.rooted hsuffixed (by simp) _
  · obtain ⟨n, rfl⟩ := Nat.exists_eq_succ_of_ne_zero (hslashes.2 hout)
    have habs (t : List Char) :
        Path.isAbsoluteChars ((modulePath reference true).toList ++ t) = true := by
      rw [hpath]
      rfl
    refine ⟨by simpa using habs [], fun dir => ?_⟩
    rw [inDirectory, Path.join_of_absolute (by simpa using habs []),
      Path.join_of_absolute (by simpa using habs ".lua".toList)]

/-- Two dots in a row are one step down, and those of a search path go up all the same. -/
theorem dotted_module_confined_upward : "a..b" ≠ "" ∧ ¬ LeadsOut "a..b" ∧
    "lib/../a/b.lua" ∈ inDirectory (modulePath "a..b" true) "lib/.." ∧
    Path.Below "/".toList "lib/..".toList "lib/../a/b.lua".toList := by
  have hin : ¬ LeadsOut "a..b" := by decide
  have hmem : "lib/../a/b.lua" ∈ inDirectory (modulePath "a..b" true) "lib/.." := by
    decide +kernel
  obtain ⟨-, -, hbelow, -⟩ := dotted_module_confined (.ofRoot []) (by decide : "a..b" ≠ "")
  exact ⟨by decide, hin, hmem, (hbelow hin).2 _ _ hmem⟩

/-- A dot at its head takes a reference out of the workspace. -/
theorem dotted_module_leads_out :
    ".a" ≠ "" ∧ Path.isAbsoluteChars (modulePath ".a" true).toList = true ∧
    "/w" ∈ (create "/" "/w" {}).directories none ∧
    "/a" ∈ inDirectory (modulePath ".a" true) "/w" ∧
    ¬ Path.Below "/".toList "/w".toList "/a".toList := by
  refine ⟨by decide, by decide +kernel, by decide +kernel, by decide +kernel, ?_⟩
  rintro ⟨names, hne, hnames, hpath⟩
  have hdir : Path.absoluteChars "/".toList "/w".toList = ['/', 'w'] := by decide +kernel
  have hfile : Path.absoluteChars "/".toList "/a".toList = ['/', 'a'] := by decide +kernel
  rw [hdir, hfile, Path.joinChars, if_neg (by simp [hnames.isAbsoluteChars_eq_false])] at hpath
  simp at hpath

end Index

end LuaSymbols
