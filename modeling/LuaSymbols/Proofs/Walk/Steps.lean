import Mathlib
import LuaSymbols.Proofs.Tree.Shape

/-!
# One step of the walk

At a node the walk reports some events of its own (`Walk.ownEvents`) and goes on to other
nodes below it (`Node.next`). Names and values take turns in this, but up to order nothing
more happens at a step (`events_perm`). So what does not depend on the order of events
needs no look into the handlers again.
-/

namespace LuaSymbols

namespace Node

/-- The nodes that the walk goes on to. -/
def next (n : Node) : List Node :=
  match n.kind with
  | .identifier => []
  | .dotIndex | .methodIndex => (n.memberParts?.map Prod.fst).toList
  | .variableDeclaration => n.declarationParts.1 ++ n.declarationParts.2
  | .assignmentStatement => n.assignmentParts.1 ++ n.assignmentParts.2
  | .functionDeclaration | .functionDefinition =>
    (n.child? .name).toList ++ (n.child? .parameters).elim [] parts ++ n.childrenAt .body
  | .functionCall => n.callParts.1.toList ++ n.callParts.2.toList
  | .forNumericClause | .forGenericClause => n.parts
  | k => if k.isContainer then n.parts else n.childrenAt .body

end Node

namespace Walk

variable (w : Walk)

/-- The fields of the tables among the values, each table under the owner of its target. -/
def pairedFields (owner? : Node → Option String) (targets values : List Node) : List Event :=
  (targets.zip values).flatMap fun (t, v) => (owner? t).elim [] (tableEvents w · v)

/-- What the walk reports at a node itself. -/
def ownEvents (n : Node) : List Event :=
  match n.kind with
  | .identifier => [.identifier ⟨n.text, none, w.range n⟩]
  | .dotIndex | .methodIndex =>
    n.memberParts?.elim [] fun (table, tail) => w.memberEvents n table tail
  | .variableDeclaration =>
    n.declarationParts.1.map (.localName <| w.declaration ·) ++
      w.pairedFields (some ·.text) n.declarationParts.1 n.declarationParts.2
  | .assignmentStatement =>
    n.assignmentParts.1.flatMap w.targetEvents ++
      w.pairedFields targetOwner? n.assignmentParts.1 n.assignmentParts.2
  | .functionDeclaration | .functionDefinition =>
    (n.child? .name).elim [] (w.functionEvents n) ++
      (((n.child? .parameters).elim [] Node.parts).filter Node.isIdentifier).map
        (.parameter <| w.declaration ·)
  | .functionCall => w.includeEvents n.callParts.1 n.callParts.2
  | .forNumericClause | .forGenericClause => n.loopNames.map (.localName <| w.declaration ·)
  | _ => []

section
variable (visit : Node → List Event)

theorem pairEvents_perm (owner? : Node → Option String) (before : Node → List Event)
    (targets values : List Node) :
    (w.pairEvents visit owner? before targets values).Perm
      (targets.flatMap before ++ w.pairedFields owner? targets values ++
        (targets ++ values).flatMap visit) := by
  induction targets generalizing values with
  | nil => simp [pairEvents, pairedFields]
  | cons t targets ih =>
    cases values with
    | nil =>
      have hrest := ih []
      rw [← Multiset.coe_eq_coe] at hrest ⊢
      simp only [pairEvents, pairedFields, List.zip_nil_right, List.flatMap_nil, List.append_nil,
        List.flatMap_cons, ← Multiset.coe_add] at hrest ⊢
      rw [hrest]
      abel
    | cons v values =>
      have hrest := ih values
      rw [← Multiset.coe_eq_coe] at hrest ⊢
      simp only [pairEvents, pairedFields, List.zip_cons_cons, List.flatMap_cons,
        List.cons_append, List.flatMap_append, ← Multiset.coe_add] at hrest ⊢
      rw [hrest]
      abel

/-- A visit of every node, and a report of some before. -/
theorem parameterEvents_perm (ns : List Node) :
    (ns.flatMap (w.parameterEvents visit)).Perm
      ((ns.filter Node.isIdentifier).map (.parameter <| w.declaration ·) ++
        ns.flatMap visit) := by
  induction ns with
  | nil => simp
  | cons n ns ih =>
    rw [← Multiset.coe_eq_coe] at ih ⊢
    simp only [List.flatMap_cons, parameterEvents, List.filter_cons, ← Multiset.coe_add] at ih ⊢
    rw [ih]
    split
    · simp only [List.map_cons, ← Multiset.cons_coe, ← Multiset.singleton_add, Multiset.coe_nil,
        add_zero]
      abel
    · simp only [Multiset.coe_nil, zero_add]
      abel

theorem flatMap_toList (n? : Option Node) : n?.toList.flatMap visit = n?.elim [] visit := by
  cases n? <;> simp

/-- A member access: the table is visited first. -/
theorem member_perm (n : Node) :
    (match n.memberParts? with
      | some (table, tail) => visit table ++ w.memberEvents n table tail
      | none => []).Perm
      (n.memberParts?.elim [] (fun (table, tail) => w.memberEvents n table tail) ++
        (n.memberParts?.map Prod.fst).toList.flatMap visit) := by
  cases n.memberParts? with
  | none => exact .refl _
  | some parts =>
    rw [flatMap_toList]
    exact List.perm_append_comm

/-- A function: its name is visited between its own events and those of its parameters. -/
theorem function_perm (n : Node) (name? parameters? : Option Node) (body : List Node) :
    (name?.elim [] (fun name => w.functionEvents n name ++ visit name) ++
      parameters?.elim [] (fun ps => ps.parts.flatMap (w.parameterEvents visit)) ++
      body.flatMap visit).Perm
      (name?.elim [] (w.functionEvents n) ++
        ((parameters?.elim [] Node.parts).filter Node.isIdentifier).map
          (.parameter <| w.declaration ·) ++
        (name?.toList ++ parameters?.elim [] Node.parts ++ body).flatMap visit) := by
  have hname : name?.elim [] (fun name => w.functionEvents n name ++ visit name) =
      name?.elim [] (w.functionEvents n) ++ name?.elim [] visit := by
    cases name? <;> rfl
  have hparameters : (parameters?.elim []
      (fun ps => ps.parts.flatMap (w.parameterEvents visit))).Perm
      (((parameters?.elim [] Node.parts).filter Node.isIdentifier).map
        (.parameter <| w.declaration ·) ++ (parameters?.elim [] Node.parts).flatMap visit) := by
    cases parameters? with
    | none => exact .refl _
    | some ps => exact w.parameterEvents_perm visit ps.parts
  rw [hname]
  rw [← Multiset.coe_eq_coe] at hparameters ⊢
  simp only [List.flatMap_append, flatMap_toList, ← Multiset.coe_add] at hparameters ⊢
  rw [hparameters]
  abel

end

/-- What one step of the walk does. -/
theorem events_perm (depth : Nat) (n : Node) :
    (w.events (depth + 1) n).Perm (w.ownEvents n ++ n.next.flatMap (w.events depth)) := by
  have hpair := w.pairEvents_perm (w.events depth)
  unfold events ownEvents Node.next
  cases n.kind with
  | identifier => exact .refl _
  | dotIndex => exact w.member_perm _ n
  | methodIndex => exact w.member_perm _ n
  | variableDeclaration =>
    dsimp only
    have hlocals := hpair (some ·.text) (fun _ => []) n.declarationParts.1 n.declarationParts.2
    rw [List.flatMap_eq_nil_iff.2 fun _ _ => rfl, List.nil_append] at hlocals
    rw [List.append_assoc]
    exact hlocals.append_left _
  | assignmentStatement => exact hpair ..
  | functionDeclaration => exact w.function_perm _ n _ _ _
  | functionDefinition => exact w.function_perm _ n _ _ _
  | functionCall =>
    dsimp only
    rw [List.flatMap_append, flatMap_toList, flatMap_toList, List.append_assoc]
  | forNumericClause => exact .refl _
  | forGenericClause => exact .refl _
  -- each other kind is a container or is not
  | _ => exact .refl _

end Walk

/-! ## Where the walk goes -/

namespace Node

theorem mem_of_child? {n c : Node} {f : Field} (h : n.child? f = some c) : c ∈ n.children :=
  List.mem_of_find?_eq_some h

theorem mem_of_parts {n c : Node} (h : c ∈ n.parts) : c ∈ n.children := (List.mem_filter.1 h).1

theorem mem_of_childrenAt {n c : Node} {f : Field} (h : c ∈ n.childrenAt f) : c ∈ n.children :=
  (List.mem_filter.1 h).1

theorem mem_of_outerParts? {n first last : Node} (h : n.outerParts? = some (first, last)) :
    first ∈ n.children ∧ last ∈ n.children := by
  unfold outerParts? at h
  split at h
  · next second rest hparts =>
    cases h
    have hlast : (second :: rest).getLast (by simp) ∈ n.parts := by
      rw [hparts]
      exact List.mem_cons_of_mem _ (List.getLast_mem _)
    exact ⟨mem_of_parts (by simp [hparts]), mem_of_parts hlast⟩
  · cases h

theorem mem_of_memberParts? {n table : Node}
    (h : table ∈ (n.memberParts?.map Prod.fst).toList) : table ∈ n.children := by
  obtain ⟨⟨_, tail⟩, hparts, rfl⟩ := Option.map_eq_some_iff.1 (Option.mem_toList.1 h)
  unfold memberParts? at hparts
  split at hparts
  · next htable _ =>
    cases hparts
    exact mem_of_child? htable
  · exact (mem_of_outerParts? hparts).1

theorem mem_of_callParts {n c : Node} (h : n.callParts.1 = some c ∨ n.callParts.2 = some c) :
    c ∈ n.children := by
  unfold callParts at h
  split at h
  · next hcallee harguments =>
    rcases h with h | h
    · exact mem_of_child? (hcallee.trans h)
    · exact mem_of_child? (harguments.trans h)
  · split at h
    · next houter =>
      rcases h with h | h
      · exact Option.some.inj h ▸ (mem_of_outerParts? houter).1
      · exact Option.some.inj h ▸ (mem_of_outerParts? houter).2
    · rcases h with h | h
      · exact mem_of_child? h
      · exact mem_of_child? h

theorem below_of_lastPart? {n c : Node} {k : Kind} (h : c ∈ (n.lastPart? k).elim [] parts) :
    n.Below c := by
  cases hp : n.lastPart? k with
  | none =>
    rw [hp] at h
    cases h
  | some p =>
    rw [hp] at h
    have hpart : p ∈ n.parts := (List.mem_filter.1 (List.mem_of_getLast? hp)).1
    exact (Below.of_child (mem_of_parts hpart)).child (mem_of_parts h)

theorem below_of_assignmentParts {n c : Node}
    (h : c ∈ n.assignmentParts.1 ∨ c ∈ n.assignmentParts.2) : n.Below c := by
  rcases h with h | h
  · exact below_of_lastPart? (List.mem_filter.1 h).1
  · exact below_of_lastPart? h

theorem below_of_declaredNames {n c : Node} (h : c ∈ n.declaredNames) : c = n ∨ n.Below c := by
  unfold declaredNames at h
  split at h
  · exact .inr (.of_child (mem_of_parts (List.mem_filter.1 h).1))
  · split at h
    · exact .inl (List.mem_singleton.1 h)
    · cases h

theorem below_of_declarationParts {n c : Node}
    (h : c ∈ n.declarationParts.1 ∨ c ∈ n.declarationParts.2) : n.Below c := by
  unfold declarationParts at h
  split at h
  · next a ha =>
    have hassigned : a.Below c := by
      rcases h with h | h
      · exact below_of_assignmentParts (.inl (List.mem_filter.1 h).1)
      · exact below_of_assignmentParts (.inr h)
    exact .trans_child (mem_of_parts (List.mem_of_find?_eq_some ha)) hassigned
  · rcases h with h | h
    · obtain ⟨p, hp, hc⟩ := List.mem_flatMap.1 h
      rcases below_of_declaredNames hc with rfl | hc
      · exact .of_child (mem_of_parts hp)
      · exact .trans_child (mem_of_parts hp) hc
    · cases h

/-- A declaration is of names. -/
theorem isIdentifier_of_declarationParts {n t : Node} (h : t ∈ n.declarationParts.1) :
    t.isIdentifier = true := by
  unfold declarationParts at h
  split at h
  · exact (List.mem_filter.1 h).2
  · obtain ⟨p, -, ht⟩ := List.mem_flatMap.1 h
    unfold declaredNames at ht
    split at ht
    · exact (List.mem_filter.1 ht).2
    · split at ht
      · next hname =>
        rw [List.mem_singleton.1 ht]
        exact hname
      · cases ht

theorem below_of_functionParts {n c : Node} (h : c ∈ (n.child? .name).toList ++
    (n.child? .parameters).elim [] parts ++ n.childrenAt .body) : n.Below c := by
  rcases List.mem_append.1 h with h | h
  · rcases List.mem_append.1 h with h | h
    · exact .of_child (mem_of_child? (Option.mem_toList.1 h))
    · cases hps : n.child? .parameters with
      | none =>
        rw [hps] at h
        cases h
      | some ps =>
        rw [hps] at h
        exact (Below.of_child (mem_of_child? hps)).child (mem_of_parts h)
  · exact .of_child (mem_of_childrenAt h)

/-- The walk goes down. -/
theorem below_of_next {n c : Node} (h : c ∈ n.next) : n.Below c := by
  unfold next at h
  split at h
  · cases h
  · exact .of_child (mem_of_memberParts? h)
  · exact .of_child (mem_of_memberParts? h)
  · exact below_of_declarationParts (List.mem_append.1 h)
  · exact below_of_assignmentParts (List.mem_append.1 h)
  · exact below_of_functionParts h
  · exact below_of_functionParts h
  · have hcall : n.callParts.1 = some c ∨ n.callParts.2 = some c := by simpa using h
    exact .of_child (mem_of_callParts hcall)
  · exact .of_child (mem_of_parts h)
  · exact .of_child (mem_of_parts h)
  · split at h
    · exact .of_child (mem_of_parts h)
    · exact .of_child (mem_of_childrenAt h)

end Node

end LuaSymbols
