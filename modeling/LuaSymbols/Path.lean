/-!
# Slash-separated paths

Lexical operations on paths: they look at the text alone, never at a disk. Each
one is defined on characters and offered on strings.
-/

namespace LuaSymbols.Path

/-! ## Normal form -/

/-- How many slashes the normal form starts with: two are kept, more become one. -/
def rootSlashes : List Char → Nat
  | '/' :: '/' :: '/' :: _ => 1
  | '/' :: '/' :: _ => 2
  | '/' :: _ => 1
  | _ => 0

def parent : List Char := ['.', '.']

/-- Adds a component to those kept so far, last one first. A `..` removes the
component before it, vanishes at the root and stays at the head of a relative
path. -/
def push (rooted : Bool) (kept : List (List Char)) (part : List Char) : List (List Char) :=
  if part = [] ∨ part = ['.'] then kept
  else if part = parent then
    match kept with
    | [] => if rooted then [] else [parent]
    | last :: rest => if last = parent then parent :: kept else rest
  else part :: kept

/-- The components of the normal form, in order. -/
def keptParts (p : List Char) : List (List Char) :=
  ((p.splitOn '/').foldl (push (rootSlashes p != 0)) []).reverse

def normalizeChars (p : List Char) : List Char :=
  match List.replicate (rootSlashes p) '/' ++ List.intercalate ['/'] (keptParts p) with
  | [] => ['.']
  | q => q

theorem normalizeChars_of_rootSlashes {p : List Char} (h : rootSlashes p ≠ 0) :
    normalizeChars p =
      List.replicate (rootSlashes p) '/' ++ List.intercalate ['/'] (keptParts p) := by
  obtain ⟨n, hn⟩ : ∃ n, rootSlashes p = n + 1 := ⟨rootSlashes p - 1, by omega⟩
  simp [normalizeChars, hn, List.replicate_succ]

theorem mem_intercalate {c : Char} (hc : c ≠ '/') {parts : List (List Char)} :
    c ∈ ['/'].intercalate parts ↔ ∃ part ∈ parts, c ∈ part := by
  induction parts with
  | nil => simp
  | cons part parts ih =>
    cases parts with
    | nil => simp
    | cons next rest =>
      rw [List.intercalate_cons_cons, List.mem_append, List.mem_append, ih]
      simp [hc]

theorem exists_mem_of_mem_push {c : Char} (hd : c ≠ '.') {rooted : Bool}
    {kept : List (List Char)} {part : List Char}
    (h : ∃ q ∈ push rooted kept part, c ∈ q) : c ∈ part ∨ ∃ q ∈ kept, c ∈ q := by
  obtain ⟨q, hq, hcq⟩ := h
  have hp : c ∉ parent := by simp [parent, hd]
  unfold push at hq
  split at hq
  · exact .inr ⟨q, hq, hcq⟩
  · split at hq
    · split at hq
      · split at hq
        · cases hq
        · obtain rfl := List.mem_singleton.1 hq
          exact absurd hcq hp
      · next last rest =>
        split at hq
        · rcases List.mem_cons.1 hq with rfl | hq
          · exact absurd hcq hp
          · exact .inr ⟨q, hq, hcq⟩
        · exact .inr ⟨q, List.mem_cons_of_mem _ hq, hcq⟩
    · rcases List.mem_cons.1 hq with rfl | hq
      · exact .inl hcq
      · exact .inr ⟨q, hq, hcq⟩

theorem exists_mem_of_mem_foldl_push {c : Char} (hd : c ≠ '.') {rooted : Bool}
    {parts kept : List (List Char)} (h : ∃ q ∈ parts.foldl (push rooted) kept, c ∈ q) :
    (∃ q ∈ parts, c ∈ q) ∨ ∃ q ∈ kept, c ∈ q := by
  induction parts generalizing kept with
  | nil => exact .inr h
  | cons part parts ih =>
    rcases ih h with ⟨q, hq, hcq⟩ | h
    · exact .inl ⟨q, List.mem_cons_of_mem _ hq, hcq⟩
    · rcases exists_mem_of_mem_push hd h with h | h
      · exact .inl ⟨part, List.mem_cons_self, h⟩
      · exact .inr h

/-- A normal form has no characters of its own but slashes and dots. -/
theorem mem_of_mem_normalizeChars {c : Char} (hs : c ≠ '/') (hd : c ≠ '.') {p : List Char}
    (h : c ∈ normalizeChars p) : c ∈ p := by
  have hc : c ∈ List.replicate (rootSlashes p) '/' ++ List.intercalate ['/'] (keptParts p) := by
    unfold normalizeChars at h
    split at h
    · simp [hd] at h
    · exact h
  rw [List.mem_append, mem_intercalate hs] at hc
  rcases hc with hc | ⟨q, hq, hcq⟩
  · exact absurd (List.eq_of_mem_replicate hc) hs
  · rw [keptParts, List.mem_reverse] at hq
    rcases exists_mem_of_mem_foldl_push hd ⟨q, hq, hcq⟩ with h | ⟨q, hq, -⟩
    · rw [← mem_intercalate hs, List.intercalate_splitOn] at h
      exact h
    · cases hq

/-- Removes empty, `.` and resolvable `..` components; the empty path is `.`. -/
def normalize (p : String) : String := String.ofList (normalizeChars p.toList)

/-! ## Joining and taking apart -/

def isAbsoluteChars : List Char → Bool
  | '/' :: _ => true
  | _ => false

theorem isAbsoluteChars_iff {p : List Char} :
    isAbsoluteChars p = true ↔ rootSlashes p = 1 ∨ rootSlashes p = 2 := by
  unfold isAbsoluteChars rootSlashes
  split <;> split <;> simp_all

def joinChars (base p : List Char) : List Char :=
  if isAbsoluteChars p then p
  else if base = [] ∨ base.getLast? = some '/' then base ++ p
  else base ++ '/' :: p

/-- `p` seen from the directory `base`; an absolute `p` ignores it. -/
def join (base p : String) : String := String.ofList (joinChars base.toList p.toList)

theorem isAbsoluteChars_joinChars {base : List Char} (h : isAbsoluteChars base = true)
    (p : List Char) : isAbsoluteChars (joinChars base p) = true := by
  cases base with
  | nil => cases h
  | cons c cs =>
    obtain rfl : c = '/' := by
      unfold isAbsoluteChars at h
      split at h <;> simp_all
    unfold joinChars
    split
    · assumption
    · split <;> rfl

def absoluteChars (cwd p : List Char) : List Char := normalizeChars (joinChars cwd p)

/-- What is seen from an absolute directory is absolute. -/
theorem isAbsoluteChars_absoluteChars {cwd : List Char} (h : isAbsoluteChars cwd = true)
    (p : List Char) : isAbsoluteChars (absoluteChars cwd p) = true := by
  have hj := isAbsoluteChars_iff.1 (isAbsoluteChars_joinChars h p)
  rw [absoluteChars, normalizeChars_of_rootSlashes (by omega)]
  rcases hj with hj | hj <;> simp [hj, isAbsoluteChars, List.replicate_succ]

theorem mem_of_mem_absoluteChars {c : Char} (hs : c ≠ '/') (hd : c ≠ '.') {cwd p : List Char}
    (h : c ∈ absoluteChars cwd p) : c ∈ cwd ∨ c ∈ p := by
  have hj := mem_of_mem_normalizeChars hs hd h
  unfold joinChars at hj
  split at hj
  · exact .inr hj
  · split at hj <;> simpa [hs] using hj

/-- The normal form of `p` seen from the working directory. -/
def absolute (cwd p : String) : String := String.ofList (absoluteChars cwd.toList p.toList)

@[simp]
theorem toList_absolute (cwd p : String) :
    (absolute cwd p).toList = absoluteChars cwd.toList p.toList := String.toList_ofList

/-- The text up to and with the last slash, and the text after it. -/
def cutAtLastSlash (p : List Char) : List Char × List Char :=
  let name := (p.reverse.takeWhile (· != '/')).reverse
  (p.take (p.length - name.length), name)

/-- Drops the slashes at the end of a directory, unless it is all slashes. -/
def trimSlashes (p : List Char) : List Char :=
  match p.reverse.dropWhile (· == '/') with
  | [] => p
  | r => r.reverse

/-- Directory and last component. -/
def splitLast (p : List Char) : List Char × List Char :=
  (trimSlashes (cutAtLastSlash p).1, (cutAtLastSlash p).2)

def directory (p : String) : String := String.ofList (splitLast p.toList).1

/-! ## File name suffix -/

/-- The last component that is neither empty nor `.`; empty when there is none. -/
def fileName (p : List Char) : List Char :=
  (((p.splitOn '/').filter fun part => part ≠ [] ∧ part ≠ ['.']).getLast?).getD []

/-- The name from its last dot on; a dot at either end of the name starts no suffix. -/
def suffix (p : List Char) : List Char :=
  let name := fileName p
  let ext := (name.reverse.takeWhile (· != '.')).reverse
  if ext = [] ∨ name.length ≤ ext.length + 1 then [] else '.' :: ext

theorem reverse_takeWhile_append {stem ext : List Char} (h : '.' ∉ ext) :
    ((stem ++ '.' :: ext).reverse.takeWhile (· != '.')).reverse = ext := by
  rw [List.reverse_append, List.reverse_cons, List.append_assoc, List.singleton_append,
    List.takeWhile_append_of_pos, List.takeWhile_cons_of_neg (by simp), List.append_nil,
    List.reverse_reverse]
  intro c hc
  simpa using fun hdot : c = '.' => h (hdot ▸ List.mem_reverse.1 hc)

/-- What the suffix is taken from has no dot. It is the whole name or stands behind a dot. -/
theorem reverse_takeWhile_cases (name : List Char) :
    '.' ∉ (name.reverse.takeWhile (· != '.')).reverse ∧
      ((name.reverse.takeWhile (· != '.')).reverse = name ∨
        ∃ stem, name = stem ++ '.' :: (name.reverse.takeWhile (· != '.')).reverse) := by
  refine ⟨fun hdot => ?_, ?_⟩
  · simpa using List.all_eq_true.1 List.all_takeWhile _ (List.mem_reverse.1 hdot)
  · have hcut := List.takeWhile_append_dropWhile (p := (· != '.')) (l := name.reverse)
    cases hrest : name.reverse.dropWhile (· != '.') with
    | nil =>
      rw [hrest, List.append_nil] at hcut
      rw [hcut, List.reverse_reverse]
      exact .inl rfl
    | cons c rest =>
      have hdot : c = '.' := by
        have hhead := List.head?_dropWhile_not (· != '.') name.reverse
        simpa [hrest] using hhead
      have hname := congrArg List.reverse hcut
      rw [hrest, hdot, List.reverse_append, List.reverse_cons, List.reverse_reverse,
        List.append_assoc] at hname
      exact .inr ⟨rest.reverse, hname.symm⟩

/-- The suffix starts at the last dot of the name, with something on either side of it. -/
theorem suffix_eq_iff {p ext : List Char} :
    suffix p = '.' :: ext ↔
      ext ≠ [] ∧ '.' ∉ ext ∧ ∃ stem, stem ≠ [] ∧ fileName p = stem ++ '.' :: ext := by
  unfold suffix
  generalize fileName p = name
  dsimp only
  constructor
  · intro h
    split at h
    · cases h
    · next hends =>
      obtain ⟨hempty, hshort⟩ := not_or.1 hends
      obtain ⟨hdot, hwhole | ⟨stem, hname⟩⟩ := reverse_takeWhile_cases name
      · rw [hwhole] at hshort
        exact absurd (Nat.le_succ _) hshort
      · rw [List.cons_inj_right] at h
        rw [h] at hempty hshort hdot hname
        refine ⟨hempty, hdot, stem, fun hstem => hshort ?_, hname⟩
        rw [hname, hstem]
        exact Nat.le_refl _
  · rintro ⟨hext, hdot, stem, hstem, rfl⟩
    have hlength : 0 < stem.length := List.length_pos_iff.2 hstem
    rw [reverse_takeWhile_append hdot, if_neg]
    rintro (hempty | hshort)
    · exact hext hempty
    · rw [List.length_append, List.length_cons] at hshort
      omega

/-- Whether the path names a Lua script, by its suffix in any letter case. -/
def isLua (p : String) : Bool := (suffix p.toList).map Char.toLower == ['.', 'l', 'u', 'a']

/-- A name that is something, a dot and `lua`, in any letter case. -/
def IsScriptName (name : List Char) : Prop :=
  ∃ stem ext, stem ≠ [] ∧ name = stem ++ '.' :: ext ∧ ext.map Char.toLower = ['l', 'u', 'a']

theorem isLua_iff {p : String} : isLua p = true ↔ IsScriptName (fileName p.toList) := by
  rw [isLua, beq_iff_eq]
  constructor
  · intro h
    have hdotted : suffix p.toList = [] ∨ ∃ ext, suffix p.toList = '.' :: ext := by
      unfold suffix
      dsimp only
      split
      · exact .inl rfl
      · exact .inr ⟨_, rfl⟩
    rcases hdotted with hnone | ⟨ext, hext⟩
    · rw [hnone] at h
      cases h
    · obtain ⟨-, -, stem, hstem, hname⟩ := suffix_eq_iff.1 hext
      rw [hext] at h
      exact ⟨stem, ext, hstem, hname, (List.cons.inj h).2⟩
  · rintro ⟨stem, ext, hstem, hname, hlower⟩
    have hdot : '.' ∉ ext := fun hmem => by
      have hlowered := List.mem_map_of_mem (f := Char.toLower) hmem
      rw [hlower] at hlowered
      exact absurd hlowered (by decide)
    have hnonempty : ext ≠ [] := by
      rintro rfl
      cases hlower
    rw [suffix_eq_iff.2 ⟨hnonempty, hdot, stem, hstem, hname⟩, List.map_cons, hlower]
    rfl

end LuaSymbols.Path
