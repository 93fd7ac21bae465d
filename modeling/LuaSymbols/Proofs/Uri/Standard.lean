import Mathlib
import LuaSymbols.Proofs.Path.NormalForm
import LuaSymbols.Proofs.Uri.Spelling

/-!
# Standard keys

A key is standard when the text behind it is the scheme, an empty host and a normal path.
Of such keys no two name the same path (`Standard.eq_of_toPath_eq`). Paths have standard
keys, unless there is a backslash in them (`standard_ofPath`).
-/

namespace LuaSymbols.Uri

/-- The text behind a key is that of a file URL for a normal path. -/
def Standard (key : String) : Prop :=
  ∃ p, Percent.decode key.toList = fileScheme ++ '/' :: '/' :: p ∧ Path.IsNormal p

/-! ## The path of a standard key -/

theorem withoutScheme_scheme (p : List Char) :
    withoutScheme (fileScheme ++ '/' :: '/' :: p) = p := by
  have h : fileScheme.isPrefixOf? (fileScheme ++ '/' :: '/' :: p) = some ('/' :: '/' :: p) :=
    List.isPrefixOf?_eq_some_iff_append_eq.2 rfl
  simp only [withoutScheme, h]

/-- Either nothing is dropped, or the slash in front of a letter. -/
theorem withoutDriveSlash_cases (p : List Char) :
    withoutDriveSlash p = p ∨
      ∃ letter rest, letter.isAlpha = true ∧ p = '/' :: letter :: rest ∧
        withoutDriveSlash p = letter :: rest := by
  unfold withoutDriveSlash
  split
  · next letter rest =>
    split
    · next halpha => exact .inr ⟨letter, ':' :: rest, halpha, rfl, rfl⟩
    · exact .inl rfl
  · exact .inl rfl

theorem isAbsoluteChars_letter {letter : Char} (halpha : letter.isAlpha = true)
    (rest : List Char) : Path.isAbsoluteChars (letter :: rest) = false := by
  simpa [Path.isAbsoluteChars_eq] using ne_slash_of_isAlpha halpha

theorem withoutDriveSlash_inj {p q : List Char} (hp : Path.isAbsoluteChars p = true)
    (hq : Path.isAbsoluteChars q = true) (h : withoutDriveSlash p = withoutDriveSlash q) :
    p = q := by
  rcases withoutDriveSlash_cases p with hp' | ⟨c, rest, hc, rfl, hp'⟩
  · rcases withoutDriveSlash_cases q with hq' | ⟨c, rest, hc, rfl, hq'⟩
    · rw [← hp', h, hq']
    · rw [← hp', h, hq', isAbsoluteChars_letter hc] at hp
      cases hp
  · rcases withoutDriveSlash_cases q with hq' | ⟨c₂, rest₂, hc₂, rfl, hq'⟩
    · rw [← hq', ← h, hp', isAbsoluteChars_letter hc] at hq
      cases hq
    · rw [hp', hq'] at h
      rw [h]

/-- A normal path stays normal without the slash in front of its drive. -/
theorem normalizeChars_withoutDriveSlash {p : List Char} (h : Path.IsNormal p) :
    Path.normalizeChars (withoutDriveSlash p) = withoutDriveSlash p := by
  rcases withoutDriveSlash_cases p with hp | ⟨letter, rest, halpha, hp, hdropped⟩
  · rw [hp, h.normalizeChars_eq]
  · obtain ⟨slashes, cs, hslashes, hcs, hnames⟩ := h
    have hne : letter ≠ '/' := by simpa using ne_slash_of_isAlpha halpha
    -- a letter behind the first slash leaves no room for a second one
    obtain rfl : cs = letter :: rest := by
      rcases hslashes with rfl | rfl
      · simpa [hcs] using hp
      · rw [hcs] at hp
        simp [List.replicate_succ] at hp
        exact absurd hp.1.symm hne
    rw [hdropped, hnames.normalizeChars_eq (by simp)]

theorem Standard.toPath_eq {key : String} {p : List Char}
    (h : Percent.decode key.toList = fileScheme ++ '/' :: '/' :: p) (hp : Path.IsNormal p) :
    toPath key = String.ofList (withoutDriveSlash p) := by
  rw [toPath, toPathChars, h, withoutScheme_scheme, normalizeChars_withoutDriveSlash hp]

/-- Standard keys that name one path are the same. -/
theorem Standard.eq_of_toPath_eq {k₁ k₂ : String} (h₁ : Standard k₁) (h₂ : Standard k₂)
    (hk₁ : normalize k₁ = k₁) (hk₂ : normalize k₂ = k₂) (h : toPath k₁ = toPath k₂) :
    k₁ = k₂ := by
  obtain ⟨p₁, hdecode₁, hp₁⟩ := h₁
  obtain ⟨p₂, hdecode₂, hp₂⟩ := h₂
  rw [Standard.toPath_eq hdecode₁ hp₁, Standard.toPath_eq hdecode₂ hp₂, String.ofList_inj] at h
  have hp := withoutDriveSlash_inj hp₁.isAbsoluteChars hp₂.isAbsoluteChars h
  rw [← hk₁, ← hk₂, normalize_eq_iff, hdecode₁, hdecode₂, hp]

/-! ## Keys of paths -/

/-- Slashes at the head of a text end at one place only. -/
theorem replicate_slash_inj {m n : Nat} {cs ds : List Char} (hc : cs.head? ≠ some '/')
    (hd : ds.head? ≠ some '/') (h : List.replicate m '/' ++ cs = List.replicate n '/' ++ ds) :
    m = n ∧ cs = ds := by
  induction m generalizing n with
  | zero =>
    cases n with
    | zero => exact ⟨rfl, h⟩
    | succ n =>
      rw [List.replicate_zero, List.nil_append] at h
      exact absurd (by rw [h]; rfl) hc
  | succ m ih =>
    cases n with
    | zero =>
      rw [List.replicate_zero, List.nil_append] at h
      exact absurd (by rw [← h]; rfl) hd
    | succ n =>
      obtain ⟨rfl, hcs⟩ := ih (List.cons.inj h).2
      exact ⟨rfl, hcs⟩

theorem areNames_toLower {letter : Char} {rest : List Char} (halpha : letter.isAlpha = true)
    (h : Path.AreNames (letter :: ':' :: rest)) :
    Path.AreNames (letter.toLower :: ':' :: rest) := by
  obtain ⟨first, more, hsplit⟩ := List.exists_cons_of_ne_nil (List.splitOn_ne_nil '/' rest)
  have hparts {c : Char} (hc : c.isAlpha = true) :
      (c :: ':' :: rest).splitOn '/' = (c :: ':' :: first) :: more := by
    rw [List.splitOn_cons_eq_if_modifyHead, if_neg (by simp [ne_slash_of_isAlpha hc]),
      List.splitOn_cons_eq_if_modifyHead, if_neg (by decide), hsplit]
    rfl
  refine .inr fun part hpart => ?_
  rw [hparts (by simpa using halpha)] at hpart
  rcases List.mem_cons.1 hpart with rfl | hpart
  · exact ⟨by simp, by simp, by simp [Path.parent]⟩
  · have hmore := h.resolve_left (by simp)
    exact hmore part (by rw [hparts halpha]; exact List.mem_cons_of_mem _ hpart)

/-- Folding the drive of a normal path leaves it normal. -/
theorem foldDriveAfter_of_isNormal {p : List Char} (h : Path.IsNormal p) :
    ∃ q, foldDriveAfter ('/' :: '/' :: p) = '/' :: '/' :: q ∧ Path.IsNormal q := by
  rcases foldDriveAfter_cases ('/' :: '/' :: p) with hfold |
    ⟨before, letter, rest, hbefore, halpha, hends, hp⟩
  · exact ⟨p, hfold, h⟩
  · obtain ⟨slashes, cs, hslashes, rfl, hnames⟩ := h
    have hletter : (letter :: ':' :: rest).head? ≠ some '/' := by
      simpa using ne_slash_of_isAlpha halpha
    obtain ⟨n, rfl⟩ := all_slashes_iff.1 hbefore
    -- the slashes before the drive are two for the host and those of the path
    obtain ⟨rfl, rfl⟩ := replicate_slash_inj (m := slashes + 2) hnames.head?_ne hletter hp
    rw [hp, foldDriveAfter_drive hbefore halpha hends]
    exact ⟨_, rfl, slashes, _, hslashes, rfl, areNames_toLower halpha hnames⟩

/-- The text behind the key of a path without a backslash: only a drive is folded. -/
theorem decode_ofPath {d : Disk} {path : String}
    (h : '\\' ∉ (Path.absolute d.cwd path).toList) :
    Percent.decode (ofPath d.cwd path).toList =
      fileScheme ++ foldDriveAfter ('/' :: '/' :: (Path.absolute d.cwd path).toList) := by
  rw [Path.toList_absolute] at h ⊢
  have hplain : '\\' ∉ fileScheme ++ '/' :: '/' :: Path.absoluteChars d.cwd.toList path.toList := by
    simpa [fileScheme] using h
  rw [ofPath, String.toList_ofList, decode_ofPathChars d.rooted, fold, map_forwardSlash hplain,
    foldDrive_scheme]

theorem isNormal_absolute (d : Disk) (path : String) :
    Path.IsNormal (Path.absolute d.cwd path).toList := by
  rw [Path.toList_absolute]
  exact Path.isNormal_absoluteChars d.rooted path.toList

/-- The key of a path without a backslash is standard. -/
theorem standard_ofPath {d : Disk} {path : String}
    (h : '\\' ∉ (Path.absolute d.cwd path).toList) : Standard (ofPath d.cwd path) := by
  obtain ⟨q, hfold, hq⟩ := foldDriveAfter_of_isNormal (isNormal_absolute d path)
  exact ⟨q, by rw [decode_ofPath h, hfold], hq⟩

end LuaSymbols.Uri
