/-!
# Tables

Finite maps from texts, as lists of pairs in the order in which the keys were
first set. `Table.get?` is the view through which the operations are known.
-/

namespace LuaSymbols

abbrev Table (α : Type) := List (String × α)

namespace Table

variable {α : Type}

def get? (t : Table α) (k : String) : Option α := t.lookup k

def keys (t : Table α) : List String := t.map Prod.fst

def has (t : Table α) (k : String) : Bool := (t.get? k).isSome

/-- Sets a key: one that is there keeps its place. -/
def set (t : Table α) (k : String) (v : α) : Table α :=
  match t with
  | [] => [(k, v)]
  | (k', v') :: rest => if k' = k then (k', v) :: rest else (k', v') :: Table.set rest k v

/-- Changes the value of a key that is there. -/
def modify (t : Table α) (k : String) (f : α → α) : Table α :=
  t.map fun (k', v) => (k', if k' = k then f v else v)

def mapValues (t : Table α) (f : α → α) : Table α := t.map fun (k, v) => (k, f v)

def erase (t : Table α) (k : String) : Table α := t.filter (·.1 ≠ k)

@[simp]
theorem get?_set_self (t : Table α) (k : String) (v : α) : (t.set k v).get? k = some v := by
  induction t with
  | nil => simp [set, get?]
  | cons p rest ih =>
    obtain ⟨k', v'⟩ := p
    by_cases h : k' = k
    · subst h; simp [set, get?]
    · have h' : (k == k') = false := by simpa using fun e => h e.symm
      simpa [set, get?, h, List.lookup_cons, h'] using ih

theorem get?_set_of_ne (t : Table α) {k k₂ : String} (v : α) (h : k₂ ≠ k) :
    (t.set k v).get? k₂ = t.get? k₂ := by
  induction t with
  | nil =>
    have : (k₂ == k) = false := by simpa using h
    simp [set, get?, List.lookup_cons, this]
  | cons p rest ih =>
    obtain ⟨k', v'⟩ := p
    by_cases e : k' = k
    · subst e
      have : (k₂ == k') = false := by simpa using h
      simp [set, get?, List.lookup_cons, this]
    · simp only [set, if_neg e, get?, List.lookup_cons]
      split
      · rfl
      · exact ih

theorem get?_set (t : Table α) (k k₂ : String) (v : α) :
    (t.set k v).get? k₂ = if k₂ = k then some v else t.get? k₂ := by
  split
  · next h => rw [h, get?_set_self]
  · next h => exact get?_set_of_ne t v h

theorem get?_mapValues (t : Table α) (f : α → α) (k : String) :
    (t.mapValues f).get? k = (t.get? k).map f := by
  induction t with
  | nil => rfl
  | cons p rest ih =>
    obtain ⟨k', v⟩ := p
    simp only [mapValues, get?, List.map_cons, List.lookup_cons] at ih ⊢
    split
    · rfl
    · exact ih

theorem get?_modify (t : Table α) (k k₂ : String) (f : α → α) :
    (t.modify k f).get? k₂ = if k₂ = k then (t.get? k₂).map f else t.get? k₂ := by
  induction t with
  | nil => simp [modify, get?]
  | cons p rest ih =>
    obtain ⟨k', v⟩ := p
    simp only [modify, get?, List.map_cons, List.lookup_cons] at ih ⊢
    by_cases h : k₂ = k'
    · subst h
      by_cases e : k₂ = k <;> simp [e]
    · have h' : (k₂ == k') = false := by simpa using h
      simpa only [h'] using ih

theorem get?_erase (t : Table α) (k k₂ : String) :
    (t.erase k).get? k₂ = if k₂ = k then none else t.get? k₂ := by
  induction t with
  | nil => simp [erase, get?]
  | cons p rest ih =>
    obtain ⟨k', v⟩ := p
    simp only [erase, get?] at ih ⊢
    by_cases h : k' = k
    · have hc : ((k', v) :: rest).filter (·.1 ≠ k) = rest.filter (·.1 ≠ k) := by simp [h]
      rw [hc, ih, List.lookup_cons]
      by_cases e : k₂ = k
      · simp [e]
      · have e' : (k₂ == k') = false := by simpa [h] using e
        simp [e']
    · have hc : ((k', v) :: rest).filter (·.1 ≠ k) = (k', v) :: rest.filter (·.1 ≠ k) := by simp [h]
      rw [hc, List.lookup_cons, List.lookup_cons, ih]
      by_cases e : k₂ = k'
      · subst e; simp [h]
      · have e' : (k₂ == k') = false := by simpa using e
        simp [e']

theorem has_iff {t : Table α} {k : String} : t.has k = true ↔ ∃ v, t.get? k = some v :=
  Option.isSome_iff_exists

theorem has_eq_false_iff {t : Table α} {k : String} : t.has k = false ↔ t.get? k = none := by
  rw [has, Option.isSome_eq_false_iff, Option.isNone_iff_eq_none]

end Table

end LuaSymbols
