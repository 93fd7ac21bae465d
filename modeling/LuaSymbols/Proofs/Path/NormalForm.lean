import Mathlib
import LuaSymbols.Proofs.Disk.Location

/-!
# Normal paths

An absolute path is normal when it is one slash or two and then names. Normalizing makes
normal paths (`isNormal_normalizeChars`) and changes none (`IsNormal.normalizeChars_eq`), so
what is absolute once is its own absolute form.
-/

namespace LuaSymbols.Path

/-- A component that leads on: neither empty nor `.` nor `..`. -/
def IsName (part : List Char) : Prop := part ≠ [] ∧ part ≠ ['.'] ∧ part ≠ parent

instance (part : List Char) : Decidable (IsName part) :=
  inferInstanceAs (Decidable (_ ∧ _ ∧ _))

/-- Names with slashes between them, or nothing. -/
def AreNames (cs : List Char) : Prop := cs = [] ∨ ∀ part ∈ cs.splitOn '/', IsName part

instance (cs : List Char) : Decidable (AreNames cs) :=
  inferInstanceAs (Decidable (_ ∨ ∀ part ∈ cs.splitOn '/', _))

/-- An absolute path without empty components, `.` and `..`. -/
def IsNormal (p : List Char) : Prop :=
  ∃ slashes cs, (slashes = 1 ∨ slashes = 2) ∧ p = List.replicate slashes '/' ++ cs ∧ AreNames cs

/-! ## Absolute paths -/

theorem isAbsoluteChars_eq (p : List Char) : isAbsoluteChars p = (p.head? == some '/') := by
  unfold isAbsoluteChars
  split
  · rfl
  · next h =>
    cases p with
    | nil => rfl
    | cons c cs =>
      have hc : c ≠ '/' := by
        rintro rfl
        exact h cs rfl
      simp [hc]

theorem joinChars_of_absolute {p : List Char} (h : isAbsoluteChars p = true) (base : List Char) :
    joinChars base p = p :=
  if_pos h

/-! ## Components -/

theorem separator_not_mem_of_mem_splitOn {sep : Char} {p part : List Char}
    (h : part ∈ p.splitOn sep) : sep ∉ part := by
  induction p generalizing part with
  | nil => simp_all
  | cons c cs ih =>
    rw [List.splitOn_cons_eq_if_modifyHead] at h
    split at h
    · rcases List.mem_cons.1 h with rfl | h
      · simp
      · exact ih h
    · next hc =>
      obtain ⟨first, rest, hsplit⟩ := List.exists_cons_of_ne_nil (List.splitOn_ne_nil sep cs)
      rw [hsplit] at h ih
      rcases List.mem_cons.1 h with rfl | h
      · have hfirst : sep ∉ first := ih (by simp)
        simpa [hfirst] using fun e => hc (by simp [← e])
      · exact ih (List.mem_cons_of_mem _ h)

theorem push_of_isName {part : List Char} (h : IsName part) (rooted : Bool)
    (kept : List (List Char)) : push rooted kept part = part :: kept := by
  obtain ⟨hne, hdot, hparent⟩ := h
  unfold push
  rw [if_neg (by simp [hne, hdot]), if_neg hparent]

theorem foldl_push_of_names {parts : List (List Char)} (h : ∀ part ∈ parts, IsName part)
    (rooted : Bool) (kept : List (List Char)) :
    parts.foldl (push rooted) kept = parts.reverse ++ kept := by
  induction parts generalizing kept with
  | nil => rfl
  | cons part parts ih =>
    rw [List.foldl_cons, push_of_isName (h part List.mem_cons_self),
      ih fun q hq => h q (List.mem_cons_of_mem _ hq), List.reverse_cons, List.append_assoc]
    rfl

/-- From the root on, only names are kept. -/
theorem isName_of_mem_push {kept : List (List Char)} {part : List Char}
    (hkept : ∀ q ∈ kept, IsName q ∧ '/' ∉ q) (hpart : '/' ∉ part) :
    ∀ q ∈ push true kept part, IsName q ∧ '/' ∉ q := by
  unfold push
  split
  · exact hkept
  · next hne =>
    split
    · cases kept with
      | nil => simp
      | cons last rest =>
        have hlast := (hkept last List.mem_cons_self).1.2.2
        simp only [if_neg hlast]
        exact fun q hq => hkept q (List.mem_cons_of_mem _ hq)
    · next hparent =>
      intro q hq
      rcases List.mem_cons.1 hq with rfl | hq
      · exact ⟨⟨fun e => hne (.inl e), fun e => hne (.inr e), hparent⟩, hpart⟩
      · exact hkept q hq

theorem isName_of_mem_keptParts {p : List Char} (h : isAbsoluteChars p = true) :
    ∀ part ∈ keptParts p, IsName part ∧ '/' ∉ part := by
  have hfold (parts kept : List (List Char)) (hparts : ∀ q ∈ parts, '/' ∉ q)
      (hkept : ∀ q ∈ kept, IsName q ∧ '/' ∉ q) :
      ∀ q ∈ parts.foldl (push true) kept, IsName q ∧ '/' ∉ q := by
    induction parts generalizing kept with
    | nil => exact hkept
    | cons part parts ih =>
      exact ih _ (fun q hq => hparts q (List.mem_cons_of_mem _ hq))
        (isName_of_mem_push hkept (hparts part List.mem_cons_self))
  intro part hpart
  rw [keptParts_of_absolute h, List.mem_reverse] at hpart
  exact hfold _ [] (fun q => separator_not_mem_of_mem_splitOn) (by simp) part hpart

/-! ## Normalizing -/

/-- What normalizing makes of an absolute path is normal. -/
theorem isNormal_normalizeChars {p : List Char} (h : isAbsoluteChars p = true) :
    IsNormal (normalizeChars p) := by
  have hslashes := isAbsoluteChars_iff.1 h
  refine ⟨rootSlashes p, _, hslashes, normalizeChars_of_rootSlashes (by omega), ?_⟩
  have hnames := isName_of_mem_keptParts h
  by_cases hnil : keptParts p = []
  · exact .inl (by rw [hnil]; rfl)
  · refine .inr fun part hpart => ?_
    rw [List.splitOn_intercalate _ (fun part hpart => (hnames part hpart).2) hnil] at hpart
    exact (hnames part hpart).1

theorem AreNames.head?_ne {cs : List Char} (h : AreNames cs) : cs.head? ≠ some '/' := by
  intro hhead
  obtain ⟨rest, rfl⟩ : ∃ rest, cs = '/' :: rest := by
    cases cs with
    | nil => cases hhead
    | cons c rest => exact ⟨rest, by simpa using hhead⟩
  rcases h with h | h
  · cases h
  · exact (h [] (by simp [List.splitOn_cons_eq_if_modifyHead])).1 rfl

theorem AreNames.isAbsoluteChars_eq_false {cs : List Char} (h : AreNames cs) :
    isAbsoluteChars cs = false := by
  simpa [isAbsoluteChars_eq] using h.head?_ne

theorem AreNames.foldl_push {cs : List Char} (h : AreNames cs) (rooted : Bool) :
    ['/'].intercalate ((cs.splitOn '/').foldl (push rooted) []).reverse = cs := by
  rcases h with rfl | h
  · simp [push]
  · rw [foldl_push_of_names h, List.append_nil, List.reverse_reverse, List.intercalate_splitOn]

theorem AreNames.rootSlashes_eq {slashes : Nat} {cs : List Char} (h : AreNames cs)
    (hslashes : slashes = 1 ∨ slashes = 2) :
    rootSlashes (List.replicate slashes '/' ++ cs) = slashes := by
  have hhead := h.head?_ne
  rcases hslashes with rfl | rfl
  all_goals
    cases cs with
    | nil => rfl
    | cons c cs =>
      have hc : c ≠ '/' := by simpa using hhead
      simp [List.replicate_succ, rootSlashes, hc]

/-- A normal path is its own normal form. -/
theorem IsNormal.normalizeChars_eq {p : List Char} (h : IsNormal p) : normalizeChars p = p := by
  obtain ⟨slashes, cs, hslashes, rfl, hnames⟩ := h
  have hroot := hnames.rootSlashes_eq hslashes
  have hempty (n : Nat) (kept : List (List Char)) (rooted : Bool) :
      ((List.replicate n '/' ++ cs).splitOn '/').foldl (push rooted) kept =
        (cs.splitOn '/').foldl (push rooted) kept := by
    -- each leading slash has an empty component before it
    induction n with
    | zero => rfl
    | succ n ih =>
      rw [List.replicate_succ, List.cons_append, List.splitOn_cons_eq_if_modifyHead,
        if_pos (beq_self_eq_true '/'), List.foldl_cons, ← ih]
      rfl
  rw [normalizeChars_of_rootSlashes (by omega), keptParts, hempty, hnames.foldl_push, hroot]

/-- Names without a slash before them are a path in normal form too. -/
theorem AreNames.normalizeChars_eq {cs : List Char} (h : AreNames cs) (hne : cs ≠ []) :
    normalizeChars cs = cs := by
  have hroot : rootSlashes cs = 0 := by
    have hhead := h.head?_ne
    unfold rootSlashes
    split <;> simp_all
  obtain ⟨c, rest, rfl⟩ := List.exists_cons_of_ne_nil hne
  simp only [normalizeChars, keptParts, h.foldl_push, hroot, List.replicate_zero, List.nil_append]

theorem IsNormal.isAbsoluteChars {p : List Char} (h : IsNormal p) : isAbsoluteChars p = true := by
  obtain ⟨slashes, cs, hslashes | hslashes, rfl, -⟩ := h <;> subst hslashes <;> rfl

theorem isNormal_absoluteChars {cwd : List Char} (h : isAbsoluteChars cwd = true)
    (p : List Char) : IsNormal (absoluteChars cwd p) :=
  isNormal_normalizeChars (isAbsoluteChars_joinChars h p)

/-- What is absolute is its own absolute form. -/
theorem absoluteChars_absoluteChars {cwd : List Char} (h : isAbsoluteChars cwd = true)
    (p : List Char) : absoluteChars cwd (absoluteChars cwd p) = absoluteChars cwd p := by
  have hnormal := isNormal_absoluteChars h p
  conv_lhs => rw [absoluteChars, joinChars_of_absolute hnormal.isAbsoluteChars]
  exact hnormal.normalizeChars_eq

end LuaSymbols.Path
