import Mathlib
import LuaSymbols.Disk
import LuaSymbols.Proofs.Uri.Canonical

/-!
# Spellings of a key

A key stands for the text that reading its escapes gives, folded. So two spellings have the
same key when these texts agree (`normalize_eq_iff`), and every spelling of a file URL for a
path has the key of that path (`normalize_of_decode`). What folding does is said once more
without the search for a drive: a text that `HasDrive` gets its letter in lower case, any
other stays.
-/

namespace LuaSymbols.Uri

/-! ## Folding -/

/-- A text starts with a drive: nothing but slashes before its letter, or the scheme and
slashes, and behind its colon a slash, the end, or a line feed at the end. -/
structure HasDrive (cs before : List Char) (letter : Char) (rest : List Char) : Prop where
  text : cs = before ++ letter :: ':' :: rest
  slashes : ∃ n, before = List.replicate n '/' ∨ before = fileScheme ++ List.replicate n '/'
  alpha : letter.isAlpha = true
  ends : rest = [] ∨ rest = ['\n'] ∨ rest.head? = some '/'

theorem endsDrive_iff {rest : List Char} :
    endsDrive rest = true ↔ rest = [] ∨ rest = ['\n'] ∨ rest.head? = some '/' := by
  unfold endsDrive
  split <;> simp_all

theorem all_slashes_iff {cs : List Char} :
    (∀ c ∈ cs, (c == '/') = true) ↔ ∃ n, cs = List.replicate n '/' := by
  constructor
  · intro h
    exact ⟨cs.length, List.eq_replicate_of_mem fun c hc => by simpa using h c hc⟩
  · rintro ⟨n, rfl⟩ c hc
    simp [List.eq_of_mem_replicate hc]

/-- Behind slashes no scheme starts, nor does one at a drive's letter. -/
theorem isPrefixOf?_slashes_drive (n : Nat) (letter : Char) (rest : List Char) :
    fileScheme.isPrefixOf? (List.replicate n '/' ++ letter :: ':' :: rest) = none := by
  cases n with
  | zero => simp [fileScheme, List.isPrefixOf?]
  | succ n => simp [fileScheme, List.replicate_succ, List.isPrefixOf?]

theorem HasDrive.foldDrive {cs before rest : List Char} {letter : Char}
    (h : HasDrive cs before letter rest) :
    foldDrive cs = before ++ letter.toLower :: ':' :: rest := by
  obtain ⟨rfl, ⟨n, hslashes⟩, halpha, hends⟩ := h
  have hall := all_slashes_iff.2 ⟨n, rfl⟩
  have hdrive := foldDriveAfter_drive hall halpha (endsDrive_iff.2 hends)
  rcases hslashes with rfl | rfl
  · rw [foldDrive_of_none (isPrefixOf?_slashes_drive n letter rest), hdrive]
  · rw [List.append_assoc, foldDrive_scheme, hdrive, List.append_assoc]

/-- Without a drive there is nothing to fold. -/
theorem foldDrive_of_no_drive {cs : List Char}
    (h : ∀ before letter rest, ¬ HasDrive cs before letter rest) : foldDrive cs = cs := by
  cases hscheme : fileScheme.isPrefixOf? cs with
  | none =>
    rw [foldDrive_of_none hscheme]
    refine (foldDriveAfter_cases cs).resolve_right ?_
    rintro ⟨slashes, d, rest, hs, hd, hr, hcs⟩
    obtain ⟨n, hn⟩ := all_slashes_iff.1 hs
    exact h slashes d rest ⟨hcs, ⟨n, .inl hn⟩, hd, endsDrive_iff.1 hr⟩
  | some tail =>
    have hcs := List.isPrefixOf?_eq_some_iff_append_eq.1 hscheme
    rw [← hcs, foldDrive_scheme]
    congr 1
    refine (foldDriveAfter_cases tail).resolve_right ?_
    rintro ⟨slashes, d, rest, hs, hd, hr, htail⟩
    obtain ⟨n, rfl⟩ := all_slashes_iff.1 hs
    refine h (fileScheme ++ List.replicate n '/') d rest ⟨?_, ⟨n, .inr rfl⟩, hd,
      endsDrive_iff.1 hr⟩
    rw [← hcs, htail, List.append_assoc]

theorem map_forwardSlash_forwardSlash (cs : List Char) :
    (cs.map forwardSlash).map forwardSlash = cs.map forwardSlash := by
  refine map_forwardSlash fun h => ?_
  obtain ⟨c, -, hc⟩ := List.mem_map.1 h
  exact forwardSlash_ne c hc

/-! ## Same keys -/

theorem normalizeChars_eq_iff {xs ys : List Char} :
    normalizeChars xs = normalizeChars ys ↔
      fold (Percent.decode xs) = fold (Percent.decode ys) := by
  constructor
  · intro h
    rw [← decode_normalizeChars, h, decode_normalizeChars]
  · intro h
    rw [normalizeChars, h, normalizeChars]

/-- Two spellings have one key when they have one text behind them, up to folding. -/
theorem normalize_eq_iff {x y : String} :
    normalize x = normalize y ↔
      fold (Percent.decode x.toList) = fold (Percent.decode y.toList) := by
  rw [normalize, normalize, String.ofList_inj, normalizeChars_eq_iff]

/-! ## Keys of paths -/

theorem isAbsoluteChars_map_forwardSlash {cs : List Char} (h : Path.isAbsoluteChars cs = true) :
    Path.isAbsoluteChars (cs.map forwardSlash) = true := by
  unfold Path.isAbsoluteChars at h
  split at h
  · rfl
  · cases h

/-- The text behind the key of a path. -/
theorem decode_ofPathChars {cwd : List Char} (hcwd : Path.isAbsoluteChars cwd = true)
    (p : List Char) :
    Percent.decode (ofPathChars cwd p) =
      fold (fileScheme ++ '/' :: '/' :: Path.absoluteChars cwd p) := by
  have habs := isAbsoluteChars_map_forwardSlash (Path.isAbsoluteChars_absoluteChars hcwd p)
  have hplain (cs : List Char) : fileScheme ++ '/' :: '/' :: Percent.encode isPlain cs =
      Percent.encode isPlain (fileScheme ++ '/' :: '/' :: cs) := by
    simp [Percent.encode, fileScheme, isPlain]
  rw [ofPathChars, if_pos habs, decode_normalizeChars, hplain,
    Percent.decode_encode isPlain_ascii, fold, fold]
  simp only [List.map_append, List.map_cons, map_forwardSlash_forwardSlash]

/-- However a file URL for a path is spelled, it has the key of that path. -/
theorem normalize_of_decode (d : Disk) {p u : String}
    (h : Percent.decode u.toList =
      fileScheme ++ '/' :: '/' :: (Path.absolute d.cwd p).toList) :
    normalize u = ofPath d.cwd p := by
  have hkey := decode_ofPathChars d.rooted p.toList
  rw [← Path.toList_absolute, ← h] at hkey
  rw [← normalize_ofPath, normalize_eq_iff, ofPath, String.toList_ofList, hkey, fold_fold]

/-- **Keys are canonical.** The text behind the key of a spelling is the folded text behind
the spelling, where folding turns backslashes and lower-cases a drive letter, if there is
one, and does nothing else. So a key is its own key, two spellings have the same key exactly
when the texts behind them fold to the same, and every spelling of the file URL of a path
has the key that the path has. -/
theorem normalize_canonical :
    (∀ x : String, Percent.decode (normalize x).toList = fold (Percent.decode x.toList)) ∧
      (∀ cs before letter rest, HasDrive (cs.map forwardSlash) before letter rest →
        fold cs = before ++ letter.toLower :: ':' :: rest) ∧
      (∀ cs, (∀ before letter rest, ¬ HasDrive (cs.map forwardSlash) before letter rest) →
        fold cs = cs.map forwardSlash) ∧
      (∀ x, normalize (normalize x) = normalize x) ∧
      (∀ x y, normalize x = normalize y ↔
        fold (Percent.decode x.toList) = fold (Percent.decode y.toList)) ∧
      ∀ (d : Disk) (p u : String), Percent.decode u.toList =
        "file://".toList ++ (Path.absolute d.cwd p).toList → normalize u = ofPath d.cwd p := by
  refine ⟨fun x => ?_, fun _ _ _ _ h => h.foldDrive, fun _ h => foldDrive_of_no_drive h,
    normalize_normalize, fun _ _ => normalize_eq_iff, fun d p u h => normalize_of_decode d h⟩
  rw [normalize, String.toList_ofList, decode_normalizeChars]

/-- The path has a drive, a backslash and a percent sign. -/
theorem normalize_canonical_drive :
    normalize "fil%65:///C:%5Cx%25.lua" = "file:///c:/x%25.lua" ∧
      normalize "fil%65:///C:%5Cx%25.lua" = ofPath "/" "C:\\x%.lua" := by
  refine ⟨by decide +kernel, ?_⟩
  exact normalize_canonical.2.2.2.2.2 (.empty "/") "C:\\x%.lua" _ (by decide +kernel)

end LuaSymbols.Uri
