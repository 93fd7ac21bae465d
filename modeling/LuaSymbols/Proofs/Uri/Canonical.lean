import Mathlib
import LuaSymbols.Proofs.Text.Utf8
import LuaSymbols.Uri

/-!
# Normal keys

Reading escapes takes back writing them (`Percent.decode_encode`), and folding a
text twice is folding it once (`Uri.fold_fold`). So the text behind a normal key is
the folded text behind the raw one, and a normal key is its own key.
-/

namespace LuaSymbols

namespace Percent

/-! ## Escapes -/

theorem pieces_cons {c : Char} (h : c ≠ '%') (rest : List Char) :
    pieces (c :: rest) = .ofChar c :: pieces rest := by
  rw [pieces]
  rintro a b t rfl
  exact absurd rfl h

theorem hexValue?_hexDigit {n : Nat} (h : n < 16) : hexValue? (hexDigit n) = some n := by
  interval_cases n <;> decide

theorem pieces_encodeByte (b : UInt8) (rest : List Char) :
    pieces (encodeByte b ++ rest) = .byte b :: pieces rest := by
  have hb : b.toNat < 256 := b.toNat_lt
  have e : 16 * (b.toNat / 16) + b.toNat % 16 = b.toNat := by omega
  simp [encodeByte, pieces, hexValue?_hexDigit (show b.toNat / 16 < 16 by omega),
    hexValue?_hexDigit (show b.toNat % 16 < 16 by omega), e]

theorem pieces_encodeBytes (bs : List UInt8) (rest : List Char) :
    pieces (bs.flatMap encodeByte ++ rest) = bs.map .byte ++ pieces rest := by
  induction bs with
  | nil => rfl
  | cons b bs ih => rw [List.flatMap_cons, List.append_assoc, pieces_encodeByte, ih]; rfl

theorem assemble_bytes (s : Utf8.State) (bs : List UInt8) (rest : List Piece) :
    assemble s (bs.map .byte ++ rest) =
      (Utf8.run s bs).1 ++ assemble (Utf8.run s bs).2 rest := by
  induction bs generalizing s with
  | nil => rfl
  | cons b bs ih => simp [assemble, Utf8.run, ih]

theorem assemble_ofChar {c : Char} (h : c.toNat < 0x80) (rest : List Piece) :
    assemble .start (.ofChar c :: rest) = c :: assemble .start rest := by
  have hc : Utf8.step .start (UInt8.ofNat c.toNat) = ([c], .start) := by
    rw [Utf8.step_ascii h, Char.ofNat_toNat]
  simp [Piece.ofChar, h, assemble, hc]

/-- Reading takes back writing, where only plain ASCII is kept as it is. -/
theorem decode_encode {keep : Char → Bool}
    (hkeep : ∀ c, keep c = true → c ≠ '%' ∧ c.toNat < 0x80) (cs : List Char) :
    decode (encode keep cs) = cs := by
  suffices h : ∀ rest, assemble .start (pieces (encode keep cs ++ rest)) =
      cs ++ assemble .start (pieces rest) by
    simpa [decode, pieces, assemble, Utf8.State.flush] using h []
  intro rest
  induction cs with
  | nil => rfl
  | cons c cs ih =>
    rw [encode, List.flatMap_cons, ← encode, List.append_assoc]
    by_cases hc : keep c = true
    · obtain ⟨hne, hlt⟩ := hkeep c hc
      rw [if_pos hc, List.singleton_append, pieces_cons hne, assemble_ofChar hlt, ih]
      rfl
    · rw [if_neg hc, pieces_encodeBytes, assemble_bytes, Utf8.run_encodeChar, ih]
      rfl

end Percent

namespace Uri

theorem isPlain_ascii (c : Char) (h : isPlain c = true) : c ≠ '%' ∧ c.toNat < 0x80 := by
  simp only [isPlain, Bool.or_eq_true, decide_eq_true_eq] at h
  rcases h with h | h
  · simp only [Char.isAlphanum, Char.isAlpha, Char.isUpper, Char.isLower, Char.isDigit,
      Bool.or_eq_true, Bool.and_eq_true, decide_eq_true_eq, ge_iff_le,
      UInt32.le_iff_toNat_le] at h
    have hlt : c.toNat < 0x80 := by simp at h; omega
    refine ⟨?_, hlt⟩
    rintro rfl
    simp at h
  · simp only [List.mem_cons, List.not_mem_nil, or_false] at h
    rcases h with rfl | rfl | rfl | rfl | rfl | rfl | rfl | rfl | rfl | rfl | rfl | rfl | rfl |
      rfl | rfl | rfl | rfl | rfl <;> decide

/-- The text behind a normal key is the folded one behind the raw key. -/
theorem decode_normalizeChars (cs : List Char) :
    Percent.decode (normalizeChars cs) = fold (Percent.decode cs) :=
  Percent.decode_encode isPlain_ascii _

/-! ## Folding is stable -/

theorem forwardSlash_ne (c : Char) : forwardSlash c ≠ '\\' := by
  unfold forwardSlash
  split
  · decide
  · assumption

theorem map_forwardSlash {cs : List Char} (h : '\\' ∉ cs) : cs.map forwardSlash = cs := by
  refine (List.map_congr_left fun c hc => ?_).trans (List.map_id cs)
  have hne : c ≠ '\\' := fun e => h (e ▸ hc)
  exact if_neg hne

theorem ne_slash_of_isAlpha {d : Char} (h : d.isAlpha = true) : (d == '/') = false := by
  rw [beq_eq_false_iff_ne]
  rintro rfl
  exact absurd h (by decide)

/-- A drive behind slashes is folded. -/
theorem foldDriveAfter_drive {slashes rest : List Char} {d : Char}
    (hs : ∀ c ∈ slashes, (c == '/') = true) (hd : d.isAlpha = true)
    (hr : endsDrive rest = true) :
    foldDriveAfter (slashes ++ d :: ':' :: rest) = slashes ++ d.toLower :: ':' :: rest := by
  have hne := ne_slash_of_isAlpha hd
  have hdrop : (slashes ++ d :: ':' :: rest).dropWhile (· == '/') = d :: ':' :: rest := by
    rw [List.dropWhile_append_of_pos hs, List.dropWhile_cons_of_neg (by simp [hne])]
  have htake : (slashes ++ d :: ':' :: rest).takeWhile (· == '/') = slashes := by
    rw [List.takeWhile_append_of_pos hs, List.takeWhile_cons_of_neg (by simp [hne]),
      List.append_nil]
  simp only [foldDriveAfter, hdrop, htake, hd, hr, Bool.and_self, if_true]

/-- Either nothing is folded, or the text is a drive behind slashes. -/
theorem foldDriveAfter_cases (cs : List Char) :
    foldDriveAfter cs = cs ∨ ∃ slashes d rest, (∀ c ∈ slashes, (c == '/') = true) ∧
      d.isAlpha = true ∧ endsDrive rest = true ∧ cs = slashes ++ d :: ':' :: rest := by
  by_cases h : ∃ d rest, cs.dropWhile (· == '/') = d :: ':' :: rest ∧ d.isAlpha = true ∧
      endsDrive rest = true
  · obtain ⟨d, rest, hdrop, hd, hr⟩ := h
    refine .inr ⟨cs.takeWhile (· == '/'), d, rest, fun c hc => ?_, hd, hr, ?_⟩
    · exact List.mem_takeWhile_imp (p := (· == '/')) hc
    · rw [← hdrop, List.takeWhile_append_dropWhile]
  · left
    unfold foldDriveAfter
    split
    · next d rest hdrop =>
      rw [if_neg]
      intro hc
      rw [Bool.and_eq_true] at hc
      exact h ⟨d, rest, hdrop, hc⟩
    · rfl

theorem foldDriveAfter_foldDriveAfter (cs : List Char) :
    foldDriveAfter (foldDriveAfter cs) = foldDriveAfter cs := by
  rcases foldDriveAfter_cases cs with h | ⟨slashes, d, rest, hs, hd, hr, rfl⟩
  · rw [h, h]
  · rw [foldDriveAfter_drive hs hd hr, foldDriveAfter_drive hs (by simpa using hd) hr,
      Char.toLower_toLower_eq_toLower]

/-- Folding a drive makes no scheme. -/
theorem isPrefixOf?_foldDriveAfter {cs : List Char} (h : fileScheme.isPrefixOf? cs = none) :
    fileScheme.isPrefixOf? (foldDriveAfter cs) = none := by
  rcases foldDriveAfter_cases cs with e | ⟨slashes, d, rest, hs, hd, hr, rfl⟩
  · rw [e, h]
  · rw [foldDriveAfter_drive hs hd hr]
    cases slashes with
    | nil => simp [fileScheme, List.isPrefixOf?]
    | cons c slashes =>
      obtain rfl : c = '/' := by simpa using hs c (by simp)
      rfl

theorem foldDrive_of_none {cs : List Char} (h : fileScheme.isPrefixOf? cs = none) :
    foldDrive cs = foldDriveAfter cs := by
  simp only [foldDrive, h]

theorem foldDrive_scheme (rest : List Char) :
    foldDrive (fileScheme ++ rest) = fileScheme ++ foldDriveAfter rest := by
  have h : fileScheme.isPrefixOf? (fileScheme ++ rest) = some rest :=
    List.isPrefixOf?_eq_some_iff_append_eq.2 rfl
  simp only [foldDrive, h]

theorem foldDrive_foldDrive (cs : List Char) : foldDrive (foldDrive cs) = foldDrive cs := by
  cases h : fileScheme.isPrefixOf? cs with
  | none =>
    rw [foldDrive_of_none h, foldDrive_of_none (isPrefixOf?_foldDriveAfter h),
      foldDriveAfter_foldDriveAfter]
  | some rest =>
    rw [← List.isPrefixOf?_eq_some_iff_append_eq.1 h, foldDrive_scheme, foldDrive_scheme,
      foldDriveAfter_foldDriveAfter]

theorem mem_foldDriveAfter {c : Char} {cs : List Char} (h : c ∈ foldDriveAfter cs) :
    c ∈ cs ∨ ∃ d : Char, d.isAlpha = true ∧ c = d.toLower := by
  rcases foldDriveAfter_cases cs with e | ⟨slashes, d, rest, hs, hd, hr, rfl⟩
  · exact .inl (e ▸ h)
  · rw [foldDriveAfter_drive hs hd hr] at h
    simp only [List.mem_append, List.mem_cons] at h ⊢
    rcases h with h | rfl | h | h
    · exact .inl (.inl h)
    · exact .inr ⟨d, hd, rfl⟩
    · exact .inl (.inr (.inr (.inl h)))
    · exact .inl (.inr (.inr (.inr h)))

theorem mem_foldDrive {c : Char} {cs : List Char} (h : c ∈ foldDrive cs) :
    c ∈ cs ∨ ∃ d : Char, d.isAlpha = true ∧ c = d.toLower := by
  cases hp : fileScheme.isPrefixOf? cs with
  | none =>
    rw [foldDrive_of_none hp] at h
    exact mem_foldDriveAfter h
  | some rest =>
    rw [← List.isPrefixOf?_eq_some_iff_append_eq.1 hp] at h ⊢
    rw [foldDrive_scheme, List.mem_append] at h
    rw [List.mem_append]
    rcases h with h | h
    · exact .inl (.inl h)
    · exact (mem_foldDriveAfter h).imp_left .inr

theorem backslash_not_mem_fold (cs : List Char) : '\\' ∉ fold cs := by
  intro h
  rcases mem_foldDrive h with h | ⟨d, hd, e⟩
  · obtain ⟨c, -, e⟩ := List.mem_map.1 h
    exact forwardSlash_ne c e
  · have hl : d.toLower.isAlpha = true := by simpa using hd
    rw [← e] at hl
    exact absurd hl (by decide)

theorem fold_fold (cs : List Char) : fold (fold cs) = fold cs := by
  rw [fold, map_forwardSlash (backslash_not_mem_fold cs), fold, foldDrive_foldDrive]

/-! ## Keys -/

theorem normalizeChars_normalizeChars (cs : List Char) :
    normalizeChars (normalizeChars cs) = normalizeChars cs := by
  rw [normalizeChars, decode_normalizeChars, fold_fold, normalizeChars]

/-- A key is its own key. -/
@[simp]
theorem normalize_normalize (raw : String) : normalize (normalize raw) = normalize raw := by
  simp only [normalize, String.toList_ofList, normalizeChars_normalizeChars]

@[simp]
theorem normalize_ofPath (cwd p : String) : normalize (ofPath cwd p) = ofPath cwd p := by
  simp only [normalize, ofPath, ofPathChars, String.toList_ofList, normalizeChars_normalizeChars]

/-! ## Paths of keys -/

theorem mem_of_mem_toPathChars {c : Char} (hs : c ≠ '/') (hd : c ≠ '.') {cs : List Char}
    (h : c ∈ toPathChars cs) : c ∈ Percent.decode cs := by
  have hp := Path.mem_of_mem_normalizeChars hs hd h
  have hw : c ∈ withoutScheme (Percent.decode cs) := by
    unfold withoutDriveSlash at hp
    split at hp
    · next e =>
      rw [e]
      split at hp
      · exact List.mem_cons_of_mem _ hp
      · exact hp
    · exact hp
  unfold withoutScheme at hw
  split at hw
  · next rest e =>
    rw [← List.isPrefixOf?_eq_some_iff_append_eq.1 e]
    simp [hw]
  · next rest _ e =>
    rw [← List.isPrefixOf?_eq_some_iff_append_eq.1 e]
    exact List.mem_append_right _ hw
  · exact hw

theorem mem_of_mem_map_forwardSlash {c : Char} (hs : c ≠ '/') {cs : List Char}
    (h : c ∈ cs.map forwardSlash) : c ∈ cs := by
  obtain ⟨c', hc', rfl⟩ := List.mem_map.1 h
  unfold forwardSlash at hs ⊢
  split at hs
  · exact absurd rfl hs
  · next hb => rwa [if_neg hb]

theorem nul_not_mem_fold {cs : List Char} (h : '\x00' ∉ cs) : '\x00' ∉ fold cs := by
  intro hc
  rcases mem_foldDrive hc with hc | ⟨d, hd, e⟩
  · exact h (mem_of_mem_map_forwardSlash (by decide) hc)
  · have hl : d.toLower.isAlpha = true := by simpa using hd
    rw [← e] at hl
    exact absurd hl (by decide)

/-- A path without a NUL has a key whose path has none. -/
theorem nul_not_mem_toPath_ofPath {cwd p : String} (hc : '\x00' ∉ cwd.toList)
    (hp : '\x00' ∉ p.toList) : '\x00' ∉ (toPath (ofPath cwd p)).toList := by
  let absolute := (Path.absoluteChars cwd.toList p.toList).map forwardSlash
  let rooted := if Path.isAbsoluteChars absolute then absolute else '/' :: absolute
  have ha : '\x00' ∉ absolute := by
    intro h
    rcases Path.mem_of_mem_absoluteChars (by decide) (by decide)
      (mem_of_mem_map_forwardSlash (by decide) h) with h | h
    · exact hc h
    · exact hp h
  have hr : '\x00' ∉ rooted := by
    unfold rooted
    split
    · exact ha
    · simpa using ha
  have he : fileScheme ++ '/' :: '/' :: Percent.encode isPlain rooted =
      Percent.encode isPlain (fileScheme ++ '/' :: '/' :: rooted) := by
    simp [Percent.encode, fileScheme, isPlain]
  intro h
  rw [toPath, ofPath, String.toList_ofList, String.toList_ofList] at h
  have hd := mem_of_mem_toPathChars (by decide) (by decide) h
  rw [ofPathChars, decode_normalizeChars] at hd
  change '\x00' ∈ fold (Percent.decode
    (fileScheme ++ '/' :: '/' :: Percent.encode isPlain rooted)) at hd
  rw [he, Percent.decode_encode isPlain_ascii] at hd
  exact nul_not_mem_fold (by simpa [fileScheme] using hr) hd

end Uri

end LuaSymbols
