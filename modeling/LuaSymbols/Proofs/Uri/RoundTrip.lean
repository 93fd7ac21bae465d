import Mathlib
import LuaSymbols.Proofs.Uri.Standard

/-!
# From a path to its key and back

The key of a path holds the escapes of its text, and reading them takes nothing away. Two
things do get lost: backslashes, which keys turn, and the case of a drive letter. A third is
lost on the way back, where the slash in front of a drive is dropped. A path without these is
`Portable`, and the path that its key names is the path itself, made absolute
(`toPath_ofPath_iff`).
-/

namespace LuaSymbols.Uri

/-- A path that holds nothing which keys change: no backslash, no drive behind one slash, and
behind two slashes no drive with a capital letter. -/
structure Portable (p : List Char) : Prop where
  slashes : '\\' ∉ p
  drive : ∀ letter rest, letter.isAlpha = true → p ≠ '/' :: letter :: ':' :: rest
  capital : ∀ letter rest, letter.isUpper = true →
    (rest = [] ∨ rest = ['\n'] ∨ rest.head? = some '/') →
    p ≠ '/' :: '/' :: letter :: ':' :: rest

/-! ## What is folded, and what is dropped -/

theorem withoutDriveSlash_eq_self_iff {p : List Char} :
    withoutDriveSlash p = p ↔
      ∀ letter rest, letter.isAlpha = true → p ≠ '/' :: letter :: ':' :: rest := by
  constructor
  · rintro h letter rest halpha rfl
    have hdropped : withoutDriveSlash ('/' :: letter :: ':' :: rest) = letter :: ':' :: rest := by
      simp [withoutDriveSlash, halpha]
    rw [hdropped] at h
    exact absurd (congrArg List.length h) (by simp)
  · intro h
    unfold withoutDriveSlash
    split
    · next letter rest =>
      rw [if_neg fun halpha => h letter rest halpha rfl]
    · rfl

/-- What is still absolute has lost no slash. -/
theorem eq_of_withoutDriveSlash_eq {p q : List Char} (hp : Path.isAbsoluteChars p = true)
    (h : withoutDriveSlash q = p) : q = p := by
  rcases withoutDriveSlash_cases q with hq | ⟨letter, rest, halpha, -, hq⟩
  · rw [← hq, h]
  · rw [← h, hq, isAbsoluteChars_letter halpha] at hp
    cases hp

theorem toLower_eq_self_iff {letter : Char} : letter.toLower = letter ↔ letter.isUpper = false := by
  constructor
  · intro h
    rw [← h]
    simp
  · intro h
    exact Char.toLower_eq_of_not_isUpper (by simp [h])

/-- Where no drive stands behind one slash, folding changes a capital drive behind two. -/
theorem foldDriveAfter_eq_self_iff {p : List Char} (hp : Path.IsNormal p)
    (hdrive : ∀ letter rest, letter.isAlpha = true → p ≠ '/' :: letter :: ':' :: rest) :
    foldDriveAfter ('/' :: '/' :: p) = '/' :: '/' :: p ↔
      ∀ letter rest, letter.isUpper = true →
        (rest = [] ∨ rest = ['\n'] ∨ rest.head? = some '/') →
        p ≠ '/' :: '/' :: letter :: ':' :: rest := by
  constructor
  · rintro h letter rest hupper hends rfl
    have hfold : foldDriveAfter (['/', '/', '/', '/'] ++ letter :: ':' :: rest) =
        ['/', '/', '/', '/'] ++ letter.toLower :: ':' :: rest :=
      foldDriveAfter_drive (by simp) (by simp [Char.isAlpha, hupper]) (endsDrive_iff.2 hends)
    have hlower : letter.toLower = letter := by
      have heq := hfold.symm.trans h
      simpa using heq
    rw [toLower_eq_self_iff, hupper] at hlower
    cases hlower
  · intro h
    rcases foldDriveAfter_cases ('/' :: '/' :: p) with hfold |
      ⟨before, letter, rest, hbefore, halpha, hends, hcut⟩
    · exact hfold
    · rw [hcut, foldDriveAfter_drive hbefore halpha hends]
      obtain ⟨slashes, cs, hslashes, rfl, hnames⟩ := hp
      have hletter : (letter :: ':' :: rest).head? ≠ some '/' := by
        simpa using ne_slash_of_isAlpha halpha
      obtain ⟨n, rfl⟩ := all_slashes_iff.1 hbefore
      obtain ⟨-, rfl⟩ := replicate_slash_inj (m := slashes + 2) hnames.head?_ne hletter hcut
      rcases hslashes with rfl | rfl
      · exact absurd rfl (hdrive letter rest halpha)
      · have hlower : letter.toLower = letter := by
          rw [toLower_eq_self_iff, Bool.eq_false_iff]
          intro hupper
          exact h letter rest hupper (endsDrive_iff.1 hends) rfl
        rw [hlower]

/-! ## There and back -/

/-- The path of a key has no backslash. -/
theorem backslash_not_mem_toPath_ofPath (d : Disk) (path : String) :
    '\\' ∉ (toPath (ofPath d.cwd path)).toList := by
  intro h
  rw [toPath, String.toList_ofList] at h
  have hdecode := mem_of_mem_toPathChars (by decide) (by decide) h
  rw [ofPath, String.toList_ofList, decode_ofPathChars d.rooted] at hdecode
  exact backslash_not_mem_fold _ hdecode

theorem toPath_ofPath_iff_portable (d : Disk) (path : String) :
    toPath (ofPath d.cwd path) = Path.absolute d.cwd path ↔
      Portable (Path.absolute d.cwd path).toList := by
  have hnormal := isNormal_absolute d path
  obtain ⟨q, hfold, hq⟩ := foldDriveAfter_of_isNormal hnormal
  have hback (hslash : '\\' ∉ (Path.absolute d.cwd path).toList) :
      toPath (ofPath d.cwd path) = String.ofList (withoutDriveSlash q) :=
    Standard.toPath_eq (by rw [decode_ofPath hslash, hfold]) hq
  constructor
  · intro h
    have hslash : '\\' ∉ (Path.absolute d.cwd path).toList := by
      rw [← h]
      exact backslash_not_mem_toPath_ofPath d path
    have hsame : withoutDriveSlash q = (Path.absolute d.cwd path).toList := by
      rw [← h, hback hslash, String.toList_ofList]
    obtain rfl := eq_of_withoutDriveSlash_eq hnormal.isAbsoluteChars hsame
    have hdrive := withoutDriveSlash_eq_self_iff.1 hsame
    exact ⟨hslash, hdrive, (foldDriveAfter_eq_self_iff hnormal hdrive).1 hfold⟩
  · intro h
    have hunfolded := (foldDriveAfter_eq_self_iff hnormal h.drive).2 h.capital
    obtain rfl : q = (Path.absolute d.cwd path).toList := by
      simpa using hfold.symm.trans hunfolded
    rw [hback h.slashes, withoutDriveSlash_eq_self_iff.2 h.drive, String.ofList_toList]

theorem portable_of_no_colon {p : List Char} (hslash : '\\' ∉ p) (hcolon : ':' ∉ p) :
    Portable p := by
  refine ⟨hslash, ?_, ?_⟩
  · rintro letter rest - rfl
    simp at hcolon
  · rintro letter rest - - rfl
    simp at hcolon

theorem absolute_of_isNormal (d : Disk) {path : String} (h : Path.IsNormal path.toList) :
    Path.absolute d.cwd path = path := by
  rw [Path.absolute, Path.absoluteChars, Path.joinChars_of_absolute h.isAbsoluteChars,
    h.normalizeChars_eq, String.ofList_toList]

/-- **A path comes back from its key exactly if it is portable.** Whatever else is in it comes
back: without backslashes and colons every path does, so percent signs, blanks, characters
outside ASCII and a second slash at the head are safe. Portable paths in normal form have
different keys. -/
theorem toPath_ofPath_iff (d : Disk) :
    (∀ path, toPath (ofPath d.cwd path) = Path.absolute d.cwd path ↔
      Portable (Path.absolute d.cwd path).toList) ∧
    (∀ path, '\\' ∉ (Path.absolute d.cwd path).toList →
      ':' ∉ (Path.absolute d.cwd path).toList →
      toPath (ofPath d.cwd path) = Path.absolute d.cwd path) ∧
    ∀ p q, Path.IsNormal p.toList → Path.IsNormal q.toList → Portable p.toList →
      Portable q.toList → ofPath d.cwd p = ofPath d.cwd q → p = q := by
  have hback {path : String} (hnormal : Path.IsNormal path.toList)
      (hportable : Portable path.toList) : toPath (ofPath d.cwd path) = path := by
    have habsolute := absolute_of_isNormal d hnormal
    rw [(toPath_ofPath_iff_portable d path).2 (by rwa [habsolute]), habsolute]
  refine ⟨toPath_ofPath_iff_portable d, fun path hslash hcolon => ?_,
    fun p q hp hq hpp hpq h => ?_⟩
  · exact (toPath_ofPath_iff_portable d path).2 (portable_of_no_colon hslash hcolon)
  · rw [← hback hp hpp, h, hback hq hpq]

/-- The paths differ in a second slash at the head, and hold what a key has to escape. -/
theorem toPath_ofPath_iff_escaped :
    toPath (ofPath "/" "//é /%41") = "//é /%41" ∧
      ofPath "/" "//é /%41" ≠ ofPath "/" "/é /%41" := by
  obtain ⟨hback, -, hinj⟩ := toPath_ofPath_iff (.ofRoot [])
  have hnames : Path.AreNames "é /%41".toList := by decide +kernel
  have hportable (p : String) (hp : '\\' ∉ p.toList ∧ ':' ∉ p.toList) : Portable p.toList :=
    portable_of_no_colon hp.1 hp.2
  have htwo : Path.IsNormal "//é /%41".toList := ⟨2, _, .inr rfl, by decide +kernel, hnames⟩
  have hone : Path.IsNormal "/é /%41".toList := ⟨1, _, .inl rfl, by decide +kernel, hnames⟩
  have habsolute := absolute_of_isNormal (.ofRoot []) htwo
  constructor
  · exact ((hback "//é /%41").2 (habsolute ▸ hportable _ (by decide +kernel))).trans habsolute
  · intro h
    exact absurd (hinj _ _ htwo hone (hportable _ (by decide +kernel))
      (hportable _ (by decide +kernel)) h) (by decide)

example : toPath (ofPath "/" "/C:x") = "C:x" ∧ toPath (ofPath "/" "//C:x") = "//C:x" ∧
    toPath (ofPath "/" "//C:\n") = "//c:\n" := by
  decide +kernel

end LuaSymbols.Uri
