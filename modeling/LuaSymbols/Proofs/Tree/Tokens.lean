import Mathlib
import LuaSymbols.Proofs.Walk.Steps

/-!
# Names with their bases

`Node.tokens` are the names of a tree, each with the base that it is to be found under: the
name of its table if it is the tail of a member access. They are the names of `Node.names`,
where the base is the mark of a tail (`names_eq_tokens`). A step of the walk goes on to nodes
whose names are names of the tree with the same bases (`tokens_subset_of_next`), for it never
visits a tail by itself.
-/

namespace LuaSymbols

/-- The kinds that give no base to the names below them. -/
def Kind.isTransparent (k : Kind) : Bool := k ≠ .identifier && !k.isAside && !k.isMember

namespace Node

/-! ## Names with their bases -/

/-- The base of the tail of a member access. -/
def tailBase? (n : Node) : Option String :=
  if n.kind.isMember then n.memberParts?.map (·.1.qualifiedName) else none

mutual
/-- The names in a tree, but for those in attributes and comments, each with the base that it
has: the tail of a member access has the name of its table, any other name none. `base` is
that of the root. -/
def tokens (base : Option String) : Node → List (Node × Option String)
  | mk l cs =>
    if l.kind = .identifier then [(mk l cs, base)]
    else if l.kind.isAside then []
    else tokensBelow (mk l cs).tailBase? cs

def tokensBelow (base : Option String) : List Node → List (Node × Option String)
  | [] => []
  | c :: cs => tokens (if c.isTail then base else none) c ++ tokensBelow base cs
end

theorem tokensBelow_eq (base : Option String) (cs : List Node) :
    tokensBelow base cs = cs.flatMap fun c => tokens (if c.isTail then base else none) c := by
  induction cs with
  | nil => simp [tokensBelow]
  | cons c cs ih => rw [tokensBelow, ih, List.flatMap_cons]

theorem tokens_eq (n : Node) (base : Option String) : n.tokens base =
    if n.kind = .identifier then [(n, base)]
    else if n.kind.isAside then []
    else n.children.flatMap fun c => c.tokens (if c.isTail then n.tailBase? else none) := by
  cases n with
  | mk l cs =>
    rw [tokens, tokensBelow_eq]
    rfl

theorem kind_of_isMember {n : Node} (h : n.kind.isMember = true) :
    n.kind ≠ .identifier ∧ n.kind.isAside = false := by
  cases hk : n.kind <;> simp_all [Kind.isMember, Kind.isAside]

theorem isSome_tailBase? {n : Node} (hs : n.Shaped) : n.tailBase?.isSome = n.kind.isMember := by
  unfold tailBase?
  split
  · next h =>
    obtain ⟨table, tail, -, -, -, hparts⟩ := hs.formed.memberParts h
    simp [h, hparts]
  · next h => simpa using h

/-- The names with a base are the tails. -/
theorem names_eq_tokens {n : Node} (hs : n.Shaped) (base : Option String) :
    n.names base.isSome = (n.tokens base).map fun t => (t.1, t.2.isSome) := by
  induction n using Node.induction generalizing base with
  | h n ih =>
    rw [names_eq, tokens_eq]
    split
    · rfl
    split
    · rfl
    rw [List.map_flatMap]
    refine List.flatMap_congr fun c hc => ?_
    have hbase : (n.kind.isMember && c.isTail) =
        (if c.isTail then n.tailBase? else none).isSome := by
      rw [← isSome_tailBase? hs]
      cases c.isTail <;> simp
    rw [hbase, ih c hc (hs.child hc)]

/-! ## Names where the walk goes -/

/-- The names of a child that is no tail are names of the node. -/
theorem tokens_subset {n c : Node} (hc : c ∈ n.children) (hname : n.kind ≠ .identifier)
    (haside : n.kind.isAside = false) (hbase : (if c.isTail then n.tailBase? else none) = none) :
    c.tokens none ⊆ n.tokens none := by
  rw [tokens_eq n, if_neg hname, if_neg (by simp [haside])]
  intro t ht
  exact List.mem_flatMap.2 ⟨c, hc, by rwa [hbase]⟩

theorem tokens_subset_of_transparent {n c : Node} (h : n.kind.isTransparent = true)
    (hc : c ∈ n.children) : c.tokens none ⊆ n.tokens none := by
  simp only [Kind.isTransparent, Bool.and_eq_true, decide_eq_true_eq, Bool.not_eq_true'] at h
  obtain ⟨⟨hname, haside⟩, hmember⟩ := h
  refine tokens_subset hc hname haside ?_
  rw [tailBase?, hmember]
  cases c.isTail <;> rfl

theorem tokens_subset_of_part {n p c : Node} (hn : n.kind.isTransparent = true)
    (hp : p ∈ n.parts) (h : p.kind.isTransparent = true) (hc : c ∈ p.parts) :
    c.tokens none ⊆ n.tokens none :=
  List.Subset.trans (tokens_subset_of_transparent h (mem_of_parts hc))
    (tokens_subset_of_transparent hn (mem_of_parts hp))

theorem tokens_subset_of_assignmentParts {n c : Node} (h : n.kind = .assignmentStatement)
    (hc : c ∈ n.assignmentParts.1 ++ n.assignmentParts.2) : c.tokens none ⊆ n.tokens none := by
  have hlist (k : Kind) (hk : k.isTransparent = true)
      (hc : c ∈ (n.lastPart? k).elim [] parts) : c.tokens none ⊆ n.tokens none := by
    cases hp : n.lastPart? k with
    | none =>
      rw [hp] at hc
      cases hc
    | some p =>
      rw [hp] at hc
      obtain ⟨hpart, hkind⟩ := List.mem_filter.1 (List.mem_of_getLast? hp)
      refine tokens_subset_of_part (by rw [h]; rfl) hpart ?_ hc
      rw [of_decide_eq_true hkind]
      exact hk
  rcases List.mem_append.1 hc with hc | hc
  · exact hlist .variableList rfl (List.mem_filter.1 hc).1
  · exact hlist .expressionList rfl hc

theorem tokens_subset_of_declarationParts {n c : Node} (h : n.kind = .variableDeclaration)
    (hc : c ∈ n.declarationParts.1 ++ n.declarationParts.2) : c.tokens none ⊆ n.tokens none := by
  have hn : n.kind.isTransparent = true := by rw [h]; rfl
  unfold declarationParts at hc
  split at hc
  · next a ha =>
    have hkind : a.kind = .assignmentStatement := by simpa using List.find?_some ha
    have hassigned : c ∈ a.assignmentParts.1 ++ a.assignmentParts.2 := by
      rcases List.mem_append.1 hc with hc | hc
      · exact List.mem_append_left _ (List.mem_filter.1 hc).1
      · exact List.mem_append_right _ hc
    exact List.Subset.trans (tokens_subset_of_assignmentParts hkind hassigned)
      (tokens_subset_of_transparent hn (mem_of_parts (List.mem_of_find?_eq_some ha)))
  · rw [List.append_nil] at hc
    obtain ⟨p, hp, hc⟩ := List.mem_flatMap.1 hc
    unfold declaredNames at hc
    split at hc
    · next hkind =>
      refine tokens_subset_of_part hn hp ?_ (List.mem_filter.1 hc).1
      rcases hkind with hkind | hkind <;> rw [hkind] <;> rfl
    · split at hc
      · rw [List.mem_singleton.1 hc]
        exact tokens_subset_of_transparent hn (mem_of_parts hp)
      · cases hc

theorem tokens_subset_of_functionParts {n c : Node} (hs : n.Shaped)
    (h : n.kind.isFunction = true) (hc : c ∈ (n.child? .name).toList ++
      (n.child? .parameters).elim [] parts ++ n.childrenAt .body) :
    c.tokens none ⊆ n.tokens none := by
  have hn : n.kind.isTransparent = true := by
    cases hk : n.kind <;> simp_all [Kind.isFunction, Kind.isTransparent, Kind.isAside,
      Kind.isMember]
  rcases List.mem_append.1 hc with hc | hc
  · rcases List.mem_append.1 hc with hc | hc
    · exact tokens_subset_of_transparent hn (mem_of_child? (Option.mem_toList.1 hc))
    · cases hps : n.child? .parameters with
      | none =>
        rw [hps] at hc
        cases hc
      | some ps =>
        rw [hps] at hc
        have hplace : ps ∈ n.childrenAt .parameters :=
          List.mem_of_head? ((child?_eq n .parameters).symm.trans hps)
        have hkind := (hs.formed.function h).2.2.2 ps hplace
        refine List.Subset.trans (tokens_subset_of_transparent ?_ (mem_of_parts hc))
          (tokens_subset_of_transparent hn (mem_of_childrenAt hplace))
        rw [hkind]
        rfl
  · exact tokens_subset_of_transparent hn (mem_of_childrenAt hc)

theorem tokens_subset_of_member {n c : Node} (hs : n.Shaped) (h : n.kind.isMember = true)
    (hc : c ∈ (n.memberParts?.map Prod.fst).toList) : c.tokens none ⊆ n.tokens none := by
  obtain ⟨table, tail, htable, -, -, hparts⟩ := hs.formed.memberParts h
  rw [hparts, Option.map_some, Option.toList_some, List.mem_singleton] at hc
  subst hc
  have hplace : c ∈ n.childrenAt .table := by simp [htable]
  obtain ⟨hname, haside⟩ := kind_of_isMember h
  refine tokens_subset (mem_of_childrenAt hplace) hname haside ?_
  simp [isTail, place_of_mem hplace]

/-- The names at a node that the walk goes on to are names of the node. -/
theorem tokens_subset_of_next {n c : Node} (hs : n.Shaped) (hc : c ∈ n.next) :
    c.tokens none ⊆ n.tokens none := by
  unfold next at hc
  split at hc <;> rename_i hkind
  · cases hc
  · exact tokens_subset_of_member hs (by rw [hkind]; rfl) hc
  · exact tokens_subset_of_member hs (by rw [hkind]; rfl) hc
  · exact tokens_subset_of_declarationParts hkind hc
  · exact tokens_subset_of_assignmentParts hkind hc
  · exact tokens_subset_of_functionParts hs (by rw [hkind]; rfl) hc
  · exact tokens_subset_of_functionParts hs (by rw [hkind]; rfl) hc
  · have hcall : n.callParts.1 = some c ∨ n.callParts.2 = some c := by simpa using hc
    exact tokens_subset_of_transparent (by rw [hkind]; rfl) (mem_of_callParts hcall)
  · exact tokens_subset_of_transparent (by rw [hkind]; rfl) (mem_of_parts hc)
  · exact tokens_subset_of_transparent (by rw [hkind]; rfl) (mem_of_parts hc)
  · split at hc
    · next hcontainer =>
      refine tokens_subset_of_transparent ?_ (mem_of_parts hc)
      cases hk : n.kind <;> simp_all [Kind.isContainer, Kind.isTransparent, Kind.isAside,
        Kind.isMember]
    · have hchild := mem_of_childrenAt hc
      have haside : n.kind.isAside = false := by
        by_contra haside
        exact (hs.formed.aside (by simpa using haside) c hchild).2 (place_of_mem hc)
      refine tokens_subset_of_transparent ?_ hchild
      cases hk : n.kind <;> simp_all [Kind.isTransparent, Kind.isAside, Kind.isMember]

theorem tail_mem_tokens {n table tail : Node} (h : n.kind.isMember = true)
    (htail : n.childrenAt .field ++ n.childrenAt .method = [tail])
    (hname : tail.kind = .identifier) (hparts : n.memberParts? = some (table, tail)) :
    (tail, some table.qualifiedName) ∈ n.tokens none := by
  have hmem : tail ∈ n.childrenAt .field ++ n.childrenAt .method := by simp [htail]
  have hplace : tail ∈ n.children ∧ tail.isTail = true := by
    rcases List.mem_append.1 hmem with hmem | hmem
    · exact ⟨mem_of_childrenAt hmem, by simp [isTail, place_of_mem hmem]⟩
    · exact ⟨mem_of_childrenAt hmem, by simp [isTail, place_of_mem hmem]⟩
  obtain ⟨hplain, haside⟩ := kind_of_isMember h
  rw [tokens_eq, if_neg hplain, if_neg (by simp [haside])]
  refine List.mem_flatMap.2 ⟨tail, hplace.1, ?_⟩
  rw [tokens_eq, if_pos hname, if_pos hplace.2, tailBase?, if_pos h, hparts]
  exact List.mem_singleton_self _

/-! ## The order of a step -/

/-- Names and values in turn, values without a name last. -/
def inTurn : List Node → List Node → List Node
  | [], values => values
  | t :: targets, [] => t :: inTurn targets []
  | t :: targets, v :: values => t :: v :: inTurn targets values

theorem mem_inTurn {c : Node} {targets values : List Node} :
    c ∈ inTurn targets values ↔ c ∈ targets ++ values := by
  induction targets, values using inTurn.induct with
  | case1 values => simp [inTurn]
  | case2 t targets ih => simp [inTurn, ih]
  | case3 t targets v values ih => simp [inTurn, ih, or_left_comm]

/-- The nodes that the walk goes on to, in its order. -/
def order (n : Node) : List Node :=
  match n.kind with
  | .variableDeclaration => inTurn n.declarationParts.1 n.declarationParts.2
  | .assignmentStatement => inTurn n.assignmentParts.1 n.assignmentParts.2
  | _ => n.next

theorem mem_next_of_mem_order {n c : Node} (h : c ∈ n.order) : c ∈ n.next := by
  unfold order at h
  split at h
  · next hkind => simpa [next, hkind] using mem_inTurn.1 h
  · next hkind => simpa [next, hkind] using mem_inTurn.1 h
  · exact h

end Node

end LuaSymbols
