import LuaSymbols.Disk
import LuaSymbols.Uri

/-!
# The keys of the files on a disk

A path that leads to a file leads there by the names of its normal form: following
it name by name and normalizing its text agree (`follow_eq`). So the absolute form
of such a path is the file's spot behind one slash or two, and a disk with `n`
entries has at most `2 * n` keys of files (`mem_fileKeys`).
-/

namespace LuaSymbols

namespace Path

/-- Pushing names from the root keeps `..` out. -/
theorem parent_not_mem_push {kept : List (List Char)} (h : parent ∉ kept) (part : List Char) :
    parent ∉ push true kept part := by
  unfold push
  split
  · exact h
  · split
    · cases kept with
      | nil => simp
      | cons last rest =>
        simp only [List.mem_cons, not_or] at h
        simp only [if_neg (Ne.symm h.1)]
        exact h.2
    · next hne =>
      simp only [List.mem_cons, not_or]
      exact ⟨Ne.symm hne, h⟩

theorem parent_not_mem_foldl_push {kept : List (List Char)} (h : parent ∉ kept)
    (parts : List (List Char)) : parent ∉ parts.foldl (push true) kept := by
  induction parts generalizing kept with
  | nil => exact h
  | cons part parts ih => exact ih (parent_not_mem_push h part)

theorem keptParts_of_absolute {p : List Char} (h : isAbsoluteChars p = true) :
    keptParts p = ((p.splitOn '/').foldl (push true) []).reverse := by
  have hr := isAbsoluteChars_iff.1 h
  have e : (rootSlashes p != 0) = true := by
    rw [bne_iff_ne]
    omega
  rw [keptParts, e]

theorem parent_not_mem_keptParts {p : List Char} (h : isAbsoluteChars p = true) :
    parent ∉ keptParts p := by
  rw [keptParts_of_absolute h, List.mem_reverse]
  exact parent_not_mem_foldl_push (by simp) _

/-- The names of a path seen from an absolute directory: those of the directory, then
its own. -/
theorem keptParts_joinChars {base p : List Char} (hb : isAbsoluteChars base = true)
    (hp : isAbsoluteChars p = false) :
    keptParts (joinChars base p) =
      ((p.splitOn '/').foldl (push true) (keptParts base).reverse).reverse := by
  rw [keptParts_of_absolute (isAbsoluteChars_joinChars hb p), keptParts_of_absolute hb,
    List.reverse_reverse, ← List.foldl_append]
  unfold joinChars
  rw [if_neg (by simp [hp])]
  split
  · next h =>
    -- the directory ends in a slash, which only adds an empty name
    have hl : base.getLast? = some '/' := h.resolve_left (by rintro rfl; cases hb)
    obtain ⟨init, rfl⟩ := List.getLast?_eq_some_iff.1 hl
    rw [List.append_assoc, List.singleton_append, List.splitOn_append_cons_self,
      List.splitOn_append_cons_self]
    simp [push]
  · rw [List.splitOn_append_cons_self]

end Path

namespace Disk

variable {d : Disk}

/-- One name, followed on the disk or pushed on the text. -/
theorem step_eq {here spot : Spot} {name : List Char} (hp : Path.parent ∉ here)
    (h : d.step here name = .ok spot) : spot.reverse = Path.push true here.reverse name := by
  unfold step at h
  split at h
  · cases h
  · cases h
  · unfold Path.push
    split at h
    · next hn =>
      cases h
      rw [if_pos hn]
    · next hn =>
      rw [if_neg hn]
      split at h
      · next hpar =>
        cases h
        rw [if_pos hpar]
        rcases List.eq_nil_or_concat here with rfl | ⟨init, last, rfl⟩
        · rfl
        · have hl : last ≠ Path.parent := by
            rintro rfl
            simp at hp
          simp [hl]
      · next hpar =>
        rw [if_neg hpar]
        split at h
        · cases h
        · cases h
          simp

theorem follow_eq {here spot : Spot} {names : List (List Char)} (hp : Path.parent ∉ here)
    (h : d.follow here names = .ok spot) :
    spot = (names.foldl (Path.push true) here.reverse).reverse := by
  induction names generalizing here with
  | nil =>
    cases h
    simp
  | cons name rest ih =>
    rw [follow] at h
    split at h
    · next next hs =>
      have e := step_eq hp hs
      have hn : Path.parent ∉ next := by
        have hr : Path.parent ∉ here.reverse := by rwa [List.mem_reverse]
        rw [← List.mem_reverse, e]
        exact Path.parent_not_mem_push hr name
      rw [ih hn h, e, List.foldl_cons]
    · cases h

/-- A path leads to the spot that its absolute form spells. -/
theorem locate_eq {p : List Char} {spot : Spot} (h : d.locate p = .ok spot) :
    spot = Path.keptParts (Path.joinChars d.cwd.toList p) := by
  unfold locate at h
  split at h
  · cases h
  split at h
  · cases h
  cases hp : Path.isAbsoluteChars p with
  | true =>
    rw [if_pos hp] at h
    have hj : Path.joinChars d.cwd.toList p = p := by rw [Path.joinChars, if_pos hp]
    rw [follow_eq (by simp) h, hj, Path.keptParts_of_absolute hp]
    rfl
  | false =>
    rw [if_neg (by simp [hp])] at h
    rw [follow_eq (Path.parent_not_mem_keptParts d.rooted) h, Path.keptParts_joinChars d.rooted hp]

/-- A file is an entry of the disk, and its path leads there. -/
theorem locate_of_isFile {path : String} (h : d.isFile path = true) :
    ∃ e ∈ d.entries, d.locate path.toList = .ok e.1 := by
  unfold isFile stat at h
  split at h
  · next bytes hs =>
    split at hs
    · cases hs
    split at hs
    · cases hs
    next spot hl =>
    split at hs
    · next e he =>
      cases hs
      unfold entry? at he
      split at he
      · cases he
      obtain ⟨l₁, l₂, hl₂, -⟩ := List.lookup_eq_some_iff.1 he
      exact ⟨(spot, .file bytes), by simp [hl₂], hl⟩
    · cases hs
  · cases h

/-- The path of a spot behind `slashes` slashes. -/
def spotPath (slashes : Nat) (spot : Spot) : String :=
  String.ofList (List.replicate slashes '/' ++ ['/'].intercalate spot)

/-- The absolute form of a path to a file is its spot, behind one slash or two. -/
theorem absolute_of_isFile {path : String} (h : d.isFile path = true) :
    ∃ e ∈ d.entries, Path.absolute d.cwd path = spotPath 1 e.1 ∨
      Path.absolute d.cwd path = spotPath 2 e.1 := by
  obtain ⟨e, he, hl⟩ := locate_of_isFile h
  have hj := Path.isAbsoluteChars_iff.1 (Path.isAbsoluteChars_joinChars d.rooted path.toList)
  have ha : Path.absolute d.cwd path =
      spotPath (Path.rootSlashes (Path.joinChars d.cwd.toList path.toList)) e.1 := by
    rw [Path.absolute, Path.absoluteChars, Path.normalizeChars_of_rootSlashes (by omega),
      ← locate_eq hl, spotPath]
  refine ⟨e, he, ?_⟩
  rcases hj with hj | hj
  · exact .inl (by rw [ha, hj])
  · exact .inr (by rw [ha, hj])

/-- The keys that paths to the entries of the disk have. -/
def fileKeys (d : Disk) : List String :=
  d.entries.flatMap fun e =>
    [Uri.ofPath d.cwd (spotPath 1 e.1), Uri.ofPath d.cwd (spotPath 2 e.1)]

theorem length_fileKeys (d : Disk) : d.fileKeys.length = 2 * d.entries.length := by
  simp [fileKeys, List.length_flatMap, List.map_const', Nat.mul_comm]

theorem mem_fileKeys {path : String} (h : d.isFile path = true) :
    Uri.ofPath d.cwd (Path.absolute d.cwd path) ∈ d.fileKeys := by
  obtain ⟨e, he, h⟩ := absolute_of_isFile h
  refine List.mem_flatMap.2 ⟨e, he, ?_⟩
  rcases h with h | h <;> simp [h]

/-! ## Paths without a NUL -/

theorem nul_not_mem_of_isFile {path : String} (h : d.isFile path = true) :
    '\x00' ∉ path.toList := by
  intro hnul
  simp [isFile, stat, hnul] at h

theorem step_ne_embeddedNul (d : Disk) (here : Spot) (name : List Char) :
    d.step here name ≠ .error .embeddedNul := by
  unfold step
  repeat' split
  all_goals simp

theorem follow_ne_embeddedNul (d : Disk) (here : Spot) (names : List (List Char)) :
    d.follow here names ≠ .error .embeddedNul := by
  induction names generalizing here with
  | nil => simp [follow]
  | cons name rest ih =>
    rw [follow]
    split
    · exact ih _
    · next e he =>
      intro h
      cases h
      exact step_ne_embeddedNul d here name he

theorem locate_ne_embeddedNul (d : Disk) (p : List Char) : d.locate p ≠ .error .embeddedNul := by
  unfold locate
  split
  · simp
  split
  · simp
  exact follow_ne_embeddedNul d _ _

/-- Only a NUL in a path is refused as one. -/
theorem readText_ne_embeddedNul {path : String} (h : '\x00' ∉ path.toList) :
    d.readText path ≠ .error .embeddedNul := by
  have hstat : d.stat path.toList ≠ .error .embeddedNul := by
    unfold stat
    rw [if_neg h]
    split
    · next e he =>
      intro hn
      cases hn
      exact locate_ne_embeddedNul d _ he
    · split <;> simp
  unfold readText readBytes
  cases hs : d.stat path.toList with
  | ok e => cases e <;> simp
  | error e =>
    simp only [ne_eq, Except.error.injEq]
    rintro rfl
    exact hstat hs

/-- The disk with these entries, seen from its root. -/
def ofRoot (entries : List (Spot × Entry)) : Disk where
  cwd := "/"
  entries
  rooted := by decide
  whole := by decide

end Disk

end LuaSymbols
