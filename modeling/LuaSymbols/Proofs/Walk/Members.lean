import Mathlib
import LuaSymbols.Lua.Grammar
import LuaSymbols.Proofs.Walk.Steps

/-!
# Members of tables

A table constructor that is assigned to a name gives that name members. `Node.fieldsWithin`
lists the fields of the constructor and of the constructors that are values in it, each with
those it is nested in. The walk registers the fields that have a name for their key and are
nested in such fields alone (`tableEvents_eq`). It looks at the key and not at the brackets
around it, so `[k] = v` passes for `k = v`. Where no such field is met, the members are just
the fields that are written `name = value` (`members_registered`).
-/

namespace LuaSymbols

namespace Node

/-! ## Fields -/

mutual
/-- The fields of a table constructor and of those that are values in it, each with the
fields that it is nested in. A field comes before those inside it. -/
def fieldsWithin : Node → List (List Node × Node)
  | mk l cs => if l.kind = .tableConstructor then fieldsAmong cs else []

def fieldsAmong : List Node → List (List Node × Node)
  | [] => []
  | mk l cs :: rest =>
    (if l.named ∧ l.kind = .field then
      ([], mk l cs) :: (fieldsOfValue cs).map (Prod.map (mk l cs :: ·) id)
    else []) ++ fieldsAmong rest

/-- The fields within the first node in the place of a value. -/
def fieldsOfValue : List Node → List (List Node × Node)
  | [] => []
  | c :: rest => if c.label.field = some .value then fieldsWithin c else fieldsOfValue rest
end

/-- The key of a field if that is a name. -/
def key? (f : Node) : Option Node := (f.child? .name).filter isIdentifier

def keyText (f : Node) : String := f.key?.elim "" text

def isKeyed (f : Node) : Bool := f.key?.isSome

def isBracketed (f : Node) : Bool := f.children.any (·.kind = .other "[")

/-- A field that is written `name = value`. -/
def isNamed (f : Node) : Bool := f.isKeyed && !f.isBracketed

/-- A field passes a test, and so do those that it is nested in. -/
def throughout (p : Node → Bool) (x : List Node × Node) : Bool := x.1.all p && p x.2

/-- The fields within a table constructor that pass a test throughout. -/
def members (p : Node → Bool) (n : Node) : List (List Node × Node) :=
  n.fieldsWithin.filter (throughout p)

/-- The values that a statement gives to names, each with the qualified name of its target. -/
def initialisers (n : Node) : List (String × Node) :=
  match n.kind with
  | .variableDeclaration =>
    (n.declarationParts.1.zip n.declarationParts.2).map fun (t, v) => (t.text, v)
  | .assignmentStatement =>
    (n.assignmentParts.1.zip n.assignmentParts.2).filterMap fun (t, v) =>
      (Walk.targetOwner? t).map (·, v)
  | _ => []

theorem key?_eq_some {f key : Node} (h : f.key? = some key) :
    f.child? .name = some key ∧ key.isIdentifier = true :=
  Option.filter_eq_some_iff.1 h

theorem key?_eq_none {f key : Node} (h : f.key? = none) (hname : f.child? .name = some key) :
    key.isIdentifier = false := by
  simpa using Option.filter_eq_none_iff.1 h key hname

/-- A field in brackets is what keeps a keyed field from being a named one. -/
theorem throughout_isNamed (x : List Node × Node) :
    throughout isNamed x = true ↔
      throughout isKeyed x = true ∧ ∀ f ∈ x.1 ++ [x.2], f.isBracketed = false := by
  simp only [throughout, isNamed, Bool.and_eq_true, List.all_eq_true, Bool.not_eq_true',
    List.forall_mem_append, List.forall_mem_singleton]
  constructor
  · rintro ⟨houter, hkeyed, hplain⟩
    exact ⟨⟨fun f hf => (houter f hf).1, hkeyed⟩, fun f hf => (houter f hf).2, hplain⟩
  · rintro ⟨⟨houter, hkeyed⟩, hplain, hown⟩
    exact ⟨fun f hf => ⟨houter f hf, hplain f hf⟩, hkeyed, hown⟩

theorem members_isNamed (n : Node) :
    n.members isNamed = (n.members isKeyed).filter (throughout isNamed) := by
  rw [members, members, List.filter_filter]
  refine List.filter_congr fun x _ => ?_
  cases hnamed : throughout isNamed x with
  | false => rfl
  | true => simp [((throughout_isNamed x).1 hnamed).1]

end Node

namespace Walk

variable (w : Walk)

/-! ## What is registered -/

/-- The owner of what is nested in a field. -/
def qualify (owner : String) (f : Node) : String := owner ++ "." ++ f.keyText

/-- A field as a member of `owner`, under the names of the fields that it is nested in. -/
def member? (owner : String) (x : List Node × Node) : Option Event :=
  x.2.key?.map fun key =>
    .assignment ⟨key.text, some (x.1.foldl qualify owner), w.range key, w.uri⟩

theorem isSome_member? (owner : String) {n : Node} {x : List Node × Node}
    (h : x ∈ n.members Node.isKeyed) : (w.member? owner x).isSome = true := by
  have hkeyed := (List.mem_filter.1 h).2
  simp only [Node.throughout, Bool.and_eq_true] at hkeyed
  rw [member?, Option.isSome_map]
  exact hkeyed.2

/-- What is nested in a field is registered under its owner, if the field has a name. -/
theorem filterMap_member?_nested (owner : String) (f : Node) (xs : List (List Node × Node)) :
    ((xs.map (Prod.map (f :: ·) id)).filter (Node.throughout Node.isKeyed)).filterMap
        (w.member? owner) =
      if f.isKeyed then
        (xs.filter (Node.throughout Node.isKeyed)).filterMap (w.member? (qualify owner f))
      else [] := by
  rw [List.filter_map, List.filterMap_map]
  split
  · next hkeyed =>
    congr 1
    refine List.filter_congr fun x _ => ?_
    simp [Node.throughout, hkeyed]
  · next hkeyed =>
    have hnone : xs.filter (Node.throughout Node.isKeyed ∘ Prod.map (f :: ·) id) = [] := by
      refine List.filter_eq_nil_iff.2 fun x _ => ?_
      simp [Node.throughout, hkeyed]
    rw [hnone, List.filterMap_nil]

mutual
/-- What the walk registers for a table: the fields that have a name for their key, as do
all that they are nested in. -/
theorem tableEvents_eq (owner : String) : (n : Node) →
    tableEvents w owner n = (n.members Node.isKeyed).filterMap (w.member? owner)
  | .mk l cs => by
    unfold tableEvents Node.members Node.fieldsWithin
    split
    · exact fieldEvents_eq owner cs
    · rfl

theorem fieldEvents_eq (owner : String) : (cs : List Node) → fieldEvents w owner cs =
    ((Node.fieldsAmong cs).filter (Node.throughout Node.isKeyed)).filterMap (w.member? owner)
  | [] => by simp [fieldEvents, Node.fieldsAmong]
  | .mk l cs :: rest => by
    have hvalue := valueEvents_eq (qualify owner (.mk l cs)) cs
    unfold fieldEvents Node.fieldsAmong
    rw [List.filter_append, List.filterMap_append, fieldEvents_eq owner rest]
    congr 1
    split
    · cases hkey : (Node.mk l cs).key? with
      | none =>
        have hkeyed : (Node.mk l cs).isKeyed = false := by rw [Node.isKeyed, hkey]; rfl
        rw [List.filter_cons_of_neg (by simp [Node.throughout, hkeyed]),
          filterMap_member?_nested, if_neg (by simp [hkeyed])]
        split
        · next key hname => simp [Node.key?_eq_none hkey hname]
        · rfl
      | some key =>
        have hkeyed : (Node.mk l cs).isKeyed = true := by rw [Node.isKeyed, hkey]; rfl
        obtain ⟨hname, hidentifier⟩ := Node.key?_eq_some hkey
        have hevent : w.member? owner ([], .mk l cs) =
            some (.assignment ⟨key.text, some owner, w.range key, w.uri⟩) := by
          rw [member?, hkey]
          rfl
        have howner : qualify owner (.mk l cs) = owner ++ "." ++ key.text := by
          rw [qualify, Node.keyText, hkey]
          rfl
        rw [List.filter_cons_of_pos (by simp [Node.throughout, hkeyed]),
          List.filterMap_cons_some hevent, filterMap_member?_nested, if_pos hkeyed, hname]
        simp only [hidentifier, if_true, ← howner, hvalue]
    · rfl

theorem valueEvents_eq (owner : String) : (cs : List Node) → valueEvents w owner cs =
    ((Node.fieldsOfValue cs).filter (Node.throughout Node.isKeyed)).filterMap (w.member? owner)
  | [] => by simp [valueEvents, Node.fieldsOfValue]
  | c :: rest => by
    unfold valueEvents Node.fieldsOfValue
    split
    · exact tableEvents_eq owner c
    · exact valueEvents_eq owner rest
end

/-- The members are the named fields just where no field in brackets is met. -/
theorem tableEvents_eq_iff (owner : String) (v : Node) :
    tableEvents w owner v = (v.members Node.isNamed).filterMap (w.member? owner) ↔
      ∀ x ∈ v.members Node.isKeyed, ∀ f ∈ x.1 ++ [x.2], f.isBracketed = false := by
  have hlength (xs : List (List Node × Node)) (hxs : xs ⊆ v.members Node.isKeyed) :
      (xs.filterMap (w.member? owner)).length = xs.length :=
    List.filterMap_length_eq_length.2 fun x hx => w.isSome_member? owner (hxs hx)
  have hsublist : (v.members Node.isNamed).Sublist (v.members Node.isKeyed) := by
    rw [Node.members_isNamed]
    exact List.filter_sublist
  rw [tableEvents_eq]
  constructor
  · intro h x hx
    -- as many entries mean as many fields, so the shorter list of fields is the longer one
    have hcount := congrArg List.length h
    rw [hlength _ (List.Subset.refl _), hlength _ hsublist.subset] at hcount
    rw [← hsublist.eq_of_length hcount.symm] at hx
    exact ((Node.throughout_isNamed x).1 (List.mem_filter.1 hx).2).2
  · intro h
    have hall : (v.members Node.isKeyed).filter (Node.throughout Node.isNamed) =
        v.members Node.isKeyed := by
      refine List.filter_eq_self.2 fun x hx => ?_
      exact (Node.throughout_isNamed x).2 ⟨(List.mem_filter.1 hx).2, h x hx⟩
    rw [Node.members_isNamed, hall]

/-! ## Where it is registered -/

/-- Behind a value come the members that it gives to its target. -/
theorem tableEvents_infix_pairEvents (visit : Node → List Event) {owner? : Node → Option String}
    (before : Node → List Event) {targets values : List Node} {t v : Node} {owner : String}
    (h : (t, v) ∈ targets.zip values) (howner : owner? t = some owner) :
    tableEvents w owner v <:+: w.pairEvents visit owner? before targets values := by
  induction targets generalizing values with
  | nil => cases h
  | cons t' targets ih =>
    cases values with
    | nil => cases h
    | cons v' values =>
      rw [pairEvents]
      rcases List.mem_cons.1 h with hhead | htail
      · cases hhead
        rw [howner]
        exact List.infix_append _ _ _
      · exact (ih htail).trans (List.suffix_append _ _).isInfix

/-- The walk of a statement registers the members of each table among its values, in a row. -/
theorem tableEvents_infix_events {n v : Node} {owner : String} (h : (owner, v) ∈ n.initialisers)
    (depth : Nat) : tableEvents w owner v <:+: w.events (depth + 1) n := by
  unfold Node.initialisers at h
  split at h <;> rename_i hkind
  · obtain ⟨⟨t, v'⟩, hpair, he⟩ := List.mem_map.1 h
    cases he
    rw [events, hkind]
    exact (tableEvents_infix_pairEvents w _ _ hpair rfl).trans (List.suffix_append _ _).isInfix
  · obtain ⟨⟨t, v'⟩, hpair, he⟩ := List.mem_filterMap.1 h
    obtain ⟨owner', howner, he⟩ := Option.map_eq_some_iff.1 he
    cases he
    rw [events, hkind]
    exact tableEvents_infix_pairEvents w _ _ hpair howner
  · cases h

/-- **Which fields become members.** Let a statement give a value to a local name or to a
target that has a name. Where the value is a table constructor, its walk registers, in
pre-order and in a row, the fields that have a name for their key and are nested in such
fields alone, each under the owner and the names it is nested in; nothing is registered for a
field with another key, or for one without, nor below it. These are the fields that are
written `name = value` if and only if none of them is in brackets or nested in one that is. -/
theorem members_registered {n v : Node} {owner : String} (h : (owner, v) ∈ n.initialisers)
    (depth : Nat) :
    tableEvents w owner v <:+: w.events (depth + 1) n ∧
    tableEvents w owner v = (v.members Node.isKeyed).filterMap (w.member? owner) ∧
    (tableEvents w owner v = (v.members Node.isNamed).filterMap (w.member? owner) ↔
      ∀ x ∈ v.members Node.isKeyed, ∀ f ∈ x.1 ++ [x.2], f.isBracketed = false) :=
  ⟨w.tableEvents_infix_events h depth, w.tableEvents_eq owner v, w.tableEvents_eq_iff owner v⟩

/-- A statement of a text gives a table to `t`. -/
theorem exists_initialiser (text : String) (p : Node → Bool)
    (h : (Lua.parse? text).any (fun root => root.nodes.any fun n =>
      n.initialisers.any fun x => x.1 == "t" && p x.2) = true) :
    ∃ root, Lua.parse? text = some root ∧ ∃ n ∈ root.nodes, ∃ v, ("t", v) ∈ n.initialisers ∧
      p v = true := by
  obtain ⟨root, hroot, hnode⟩ := (Option.any_eq_true _ _).1 h
  obtain ⟨n, hn, hvalue⟩ := List.any_eq_true.1 hnode
  obtain ⟨⟨owner, v⟩, hv, hp⟩ := List.any_eq_true.1 hvalue
  simp only [Bool.and_eq_true, beq_iff_eq] at hp
  obtain ⟨rfl, hp⟩ := hp
  exact ⟨root, hroot, n, hn, v, hv, hp⟩

/-- A table with a field in brackets among named ones. -/
def tabled : String := "local t = \x7ba = 1, [2] = \x7bb = 3\x7d, c = \x7bd = 4\x7d\x7d"

/-- What is nested in the field in brackets is left out. -/
theorem members_registered_tabled :
    ∃ root, Lua.parse? tabled = some root ∧
      ∃ n ∈ root.nodes, ∃ v, ("t", v) ∈ n.initialisers ∧
        (v.members Node.isNamed).map (fun x => (x.2.keyText, x.1.foldl qualify "t")) =
          [("a", "t"), ("c", "t"), ("d", "t.c")] ∧
        ∀ w : Walk, ∀ depth, tableEvents w "t" v <:+: w.events (depth + 1) n ∧
          tableEvents w "t" v = (v.members Node.isNamed).filterMap (w.member? "t") := by
  obtain ⟨root, hroot, n, hn, v, hv, hp⟩ := exists_initialiser tabled
    (fun v => decide ((v.members Node.isNamed).map
      (fun x => (x.2.keyText, x.1.foldl qualify "t")) = [("a", "t"), ("c", "t"), ("d", "t.c")] ∧
      ∀ x ∈ v.members Node.isKeyed, ∀ f ∈ x.1 ++ [x.2], f.isBracketed = false))
    (by decide +kernel)
  obtain ⟨hnamed, hplain⟩ := of_decide_eq_true hp
  refine ⟨root, hroot, n, hn, v, hv, hnamed, fun w depth => ?_⟩
  obtain ⟨hrow, -, hiff⟩ := w.members_registered hv depth
  exact ⟨hrow, hiff.2 hplain⟩

/-- A field whose key is a variable in brackets is no named field, and is registered under the
name of the variable. -/
theorem bracketed_variable_registered :
    ∃ root, Lua.parse? "t = \x7b[k] = 1\x7d" = some root ∧
      ∃ n ∈ root.nodes, ∃ v, ("t", v) ∈ n.initialisers ∧ v.members Node.isNamed = [] ∧
        ∀ w : Walk, ∃ range, tableEvents w "t" v = [.assignment ⟨"k", some "t", range, w.uri⟩] := by
  obtain ⟨root, hroot, n, hn, v, hv, hp⟩ := exists_initialiser "t = \x7b[k] = 1\x7d"
    (fun v => (v.members Node.isNamed).isEmpty &&
      decide ((v.members Node.isKeyed).map (fun x => (x.2.keyText, x.1.length)) = [("k", 0)]))
    (by decide +kernel)
  simp only [Bool.and_eq_true, List.isEmpty_iff, decide_eq_true_eq] at hp
  obtain ⟨hnamed, hkeyed⟩ := hp
  obtain ⟨⟨outer, f⟩, hmembers, hfield⟩ := List.map_eq_singleton_iff.1 hkeyed
  obtain ⟨hkey, houter⟩ := Prod.mk.inj hfield
  obtain rfl : outer = [] := List.length_eq_zero_iff.1 houter
  refine ⟨root, hroot, n, hn, v, hv, hnamed, fun w => ?_⟩
  have hmember : ([], f) ∈ v.members Node.isKeyed := by simp [hmembers]
  obtain ⟨e, he⟩ := Option.isSome_iff_exists.1 (w.isSome_member? "t" hmember)
  obtain ⟨key, hkey?, rfl⟩ := Option.map_eq_some_iff.1 he
  have htext : key.text = "k" := by
    rw [← hkey, Node.keyText, hkey?]
    rfl
  refine ⟨w.range key, ?_⟩
  rw [tableEvents_eq, hmembers, List.filterMap_cons_some he, htext]
  rfl

end Walk

end LuaSymbols
