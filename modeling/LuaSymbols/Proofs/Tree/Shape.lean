import Mathlib
import LuaSymbols.Walk

/-!
# The shape of syntax trees

`Node.nodes` are the nodes of a tree and `Node.names` the names in it, each with whether it
is the tail of a member access. A tree is `Shaped` when its constructs have the parts that
the grammar gives them. The walk picks the children of a construct by place, by position or
by kind; in a shaped tree all of these agree, and nothing of interest is left over.
-/

namespace LuaSymbols

namespace Kind

/-- The kinds that the walk knows. Of other nodes it looks at the body alone. -/
def isHandled : Kind → Bool
  | identifier | dotIndex | methodIndex | variableDeclaration | assignmentStatement
  | functionDeclaration | functionDefinition | functionCall | forNumericClause
  | forGenericClause => .true
  | k => k.isContainer

def isFunction : Kind → Bool
  | functionDeclaration | functionDefinition => .true
  | _ => .false

/-- The kinds that stand aside from the program. -/
def isAside : Kind → Bool
  | attrib | comment => .true
  | _ => .false

end Kind

namespace Node

def isLeaf (n : Node) : Bool := n.children.isEmpty

/-- In the place of the tail of a member access. -/
def isTail (n : Node) : Bool := n.label.field = some .field || n.label.field = some .method

/-! ## Nodes and names -/

mutual
/-- All nodes of a tree, each before its children. -/
def nodes : Node → List Node
  | mk l cs => mk l cs :: nodesBelow cs

def nodesBelow : List Node → List Node
  | [] => []
  | c :: cs => nodes c ++ nodesBelow cs
end

mutual
/-- The names in a tree, but for those in attributes and comments. Each comes with whether
it is the tail of a member access; `tail` says that of the root. -/
def names (tail : Bool) : Node → List (Node × Bool)
  | mk l cs =>
    if l.kind = .identifier then [(mk l cs, tail)]
    else if l.kind.isAside then []
    else namesBelow l.kind.isMember cs

def namesBelow (member : Bool) : List Node → List (Node × Bool)
  | [] => []
  | c :: cs => names (member && c.isTail) c ++ namesBelow member cs
end

/-- The include that a call makes, if its callee is one of the keywords and its first
argument is a string with some content. -/
def include? (keywords : List String) (n : Node) : Option (String × Bool) :=
  if n.kind = .functionCall then
    match n.child? .name, (n.child? .arguments).bind firstString? with
    | some callee, some reference =>
      if callee.isIdentifier ∧ callee.text ∈ keywords ∧ reference ≠ "" then
        some (reference, callee.text = "require")
      else none
    | _, _ => none
  else none

/-! ## Shapes -/

/-- All parts of a node are in the given places. -/
def PartsIn (n : Node) (places : List Field) : Prop :=
  ∀ c ∈ n.parts, c.label.field ∈ places.map some

instance (n : Node) (places : List Field) : Decidable (n.PartsIn places) :=
  inferInstanceAs (Decidable (∀ c ∈ n.parts, _))

/-- Names with attributes and nothing else. -/
def DeclaresNames (n : Node) : Prop := ∀ c ∈ n.parts, c.isIdentifier ∨ c.kind = .attrib

instance (n : Node) : Decidable n.DeclaresNames :=
  inferInstanceAs (Decidable (∀ c ∈ n.parts, _))

/-- A node has what the grammar gives to its kind. -/
@[mk_iff]
structure Formed (n : Node) : Prop where
  /-- An unnamed node is a token. -/
  token : n.named = false → n.isLeaf ∧ ¬ n.isIdentifier
  name : n.isIdentifier → n.isLeaf
  aside : n.kind.isAside → ∀ c ∈ n.children, c.isLeaf ∧ c.label.field ≠ some .body
  member : n.kind.isMember → n.PartsIn [.table, .field, .method] ∧
    (n.childrenAt .table).length = 1 ∧
    (n.childrenAt .field ++ n.childrenAt .method).map isIdentifier = [true]
  call : n.kind = .functionCall → n.PartsIn [.name, .arguments] ∧
    (n.childrenAt .name).length = 1 ∧ (n.childrenAt .arguments).length = 1
  function : n.kind.isFunction → n.PartsIn [.name, .parameters, .body] ∧
    (n.childrenAt .name).length ≤ 1 ∧ (n.childrenAt .parameters).length ≤ 1 ∧
    ∀ c ∈ n.childrenAt .parameters, c.kind = .parameters
  assignment : n.kind = .assignmentStatement →
    (n.parts.map kind).Perm [.variableList, .expressionList]
  /-- Names alone, or an assignment to names. -/
  declaration : n.kind = .variableDeclaration → n.parts.length = 1 ∧ ∀ c ∈ n.parts,
    c.kind = .variableList ∧ c.DeclaresNames ∨
      c.kind = .assignmentStatement ∧ ∀ v ∈ c.parts, v.kind = .variableList → v.DeclaresNames
  unhandled : n.kind.isHandled = false → n.names false = []

instance (n : Node) : Decidable n.Formed := decidable_of_iff' _ (formed_iff n)

/-- Every node of a tree is formed. -/
def Shaped (n : Node) : Prop := ∀ m ∈ n.nodes, m.Formed

instance (n : Node) : Decidable n.Shaped :=
  inferInstanceAs (Decidable (∀ m ∈ n.nodes, _))

/-! ## Below a node -/

theorem sizeOf_lt_of_mem {n c : Node} (h : c ∈ n.children) : sizeOf c < sizeOf n := by
  cases n with
  | mk l cs =>
    have hlt := List.sizeOf_lt_of_mem (show c ∈ cs from h)
    simp only [mk.sizeOf_spec]
    omega

/-- Induction over a tree, with the hypothesis at every child. -/
@[elab_as_elim]
theorem induction {P : Node → Prop} (h : ∀ n, (∀ c ∈ n.children, P c) → P n) (n : Node) : P n :=
  h n fun c hc =>
    have _ := sizeOf_lt_of_mem hc
    induction h c
termination_by n

theorem nodesBelow_eq (cs : List Node) : nodesBelow cs = cs.flatMap nodes := by
  induction cs with
  | nil => simp [nodesBelow]
  | cons c cs ih => rw [nodesBelow, ih, List.flatMap_cons]

theorem nodes_eq (n : Node) : n.nodes = n :: n.children.flatMap nodes := by
  cases n with
  | mk l cs => rw [nodes, nodesBelow_eq, children]

theorem namesBelow_eq (member : Bool) (cs : List Node) :
    namesBelow member cs = cs.flatMap fun c => names (member && c.isTail) c := by
  induction cs with
  | nil => simp [namesBelow]
  | cons c cs ih => rw [namesBelow, ih, List.flatMap_cons]

theorem names_eq (n : Node) (tail : Bool) : n.names tail =
    if n.kind = .identifier then [(n, tail)]
    else if n.kind.isAside then []
    else n.children.flatMap fun c => c.names (n.kind.isMember && c.isTail) := by
  cases n with
  | mk l cs =>
    rw [names, namesBelow_eq]
    rfl

theorem names_of_identifier {n : Node} (h : n.kind = .identifier) (tail : Bool) :
    n.names tail = [(n, tail)] := by
  rw [names_eq, if_pos h]

theorem names_of_aside {n : Node} (h : n.kind.isAside = true) (tail : Bool) :
    n.names tail = [] := by
  have hne : n.kind ≠ .identifier := by
    intro he
    simp [he, Kind.isAside] at h
  rw [names_eq, if_neg hne, if_pos h]

/-- Only for a name does it matter whether it is a tail. -/
theorem names_tail {n : Node} (h : n.kind ≠ .identifier) (tail : Bool) :
    n.names tail = n.names false := by
  rw [names_eq, names_eq, if_neg h, if_neg h]

theorem child_names_eq_nil {n c : Node} (haside : n.kind.isAside = false)
    (h : n.names false = []) (hc : c ∈ n.children) :
    c.kind ≠ .identifier ∧ c.names false = [] := by
  have hname : n.kind ≠ .identifier := by
    intro hkind
    rw [names_of_identifier hkind] at h
    cases h
  rw [names_eq, if_neg hname, if_neg (by simp [haside]), List.flatMap_eq_nil_iff] at h
  have hchild : c.kind ≠ .identifier := by
    intro hkind
    have hnil := h c hc
    rw [names_of_identifier hkind] at hnil
    cases hnil
  exact ⟨hchild, (names_tail hchild _).symm.trans (h c hc)⟩

theorem self_mem_nodes (n : Node) : n ∈ n.nodes := by
  rw [nodes_eq]
  exact List.mem_cons_self

theorem mem_nodes {n m : Node} : m ∈ n.nodes ↔ m = n ∨ ∃ c ∈ n.children, m ∈ c.nodes := by
  rw [nodes_eq, List.mem_cons, List.mem_flatMap]

theorem nodes_sublist {n m : Node} (h : m ∈ n.nodes) : m.nodes.Sublist n.nodes := by
  induction n using induction with
  | h n ih =>
    rcases mem_nodes.1 h with rfl | ⟨c, hc, hm⟩
    · exact .refl _
    · rw [nodes_eq n]
      exact ((ih c hc hm).trans (List.sublist_flatten_of_mem (List.mem_map_of_mem hc))).cons n

/-- The nodes below a node. -/
def Below (n m : Node) : Prop := ∃ c ∈ n.children, m ∈ c.nodes

theorem Below.of_child {n c : Node} (h : c ∈ n.children) : n.Below c := ⟨c, h, c.self_mem_nodes⟩

theorem Below.child {n m c : Node} (h : n.Below m) (hc : c ∈ m.children) : n.Below c := by
  obtain ⟨c', hc', hm⟩ := h
  exact ⟨c', hc', (nodes_sublist hm).subset (mem_nodes.2 (.inr ⟨c, hc, c.self_mem_nodes⟩))⟩

theorem Below.trans_child {n m c : Node} (hc : c ∈ n.children) (h : c.Below m) : n.Below m :=
  ⟨c, hc, mem_nodes.2 (.inr h)⟩

theorem Below.mem {n m : Node} (h : n.Below m) : m ∈ n.nodes := mem_nodes.2 (.inr h)

theorem Below.nodes_subset {n m : Node} (h : n.Below m) : m.nodes ⊆ n.nodes :=
  (nodes_sublist h.mem).subset

theorem Below.length_lt {n m : Node} (h : n.Below m) : m.nodes.length < n.nodes.length := by
  obtain ⟨c, hc, hm⟩ := h
  have hle := ((nodes_sublist hm).trans
    (List.sublist_flatten_of_mem (List.mem_map_of_mem (f := nodes) hc))).length_le
  rw [nodes_eq n, List.length_cons]
  exact Nat.lt_succ_of_le hle

theorem Shaped.formed {n : Node} (h : n.Shaped) : n.Formed := h n n.self_mem_nodes

theorem Shaped.below {n m : Node} (h : n.Shaped) (hm : n.Below m) : m.Shaped := by
  intro m' hm'
  exact h m' ((nodes_sublist (mem_nodes.2 (.inr hm))).subset hm')

theorem Shaped.of_mem {n m : Node} (h : n.Shaped) (hm : m ∈ n.nodes) : m.Shaped :=
  fun m' hm' => h m' ((nodes_sublist hm).subset hm')

theorem Shaped.child {n c : Node} (h : n.Shaped) (hc : c ∈ n.children) : c.Shaped :=
  h.below (.of_child hc)

/-! ## The parts of formed nodes -/

theorem child?_eq (n : Node) (f : Field) : n.child? f = (n.childrenAt f).head? :=
  List.head?_filter.symm

theorem toList_child? {n : Node} {f : Field} (h : (n.childrenAt f).length ≤ 1) :
    (n.child? f).toList = n.childrenAt f := by
  rw [child?_eq]
  match hf : n.childrenAt f with
  | [] => rfl
  | [_] => rfl
  | _ :: _ :: _ => simp [hf] at h

theorem place_of_mem {n c : Node} {f : Field} (h : c ∈ n.childrenAt f) :
    c.label.field = some f := by
  simpa using (List.mem_filter.1 h).2

/-- A formed member access has a table and a name for its tail. -/
theorem Formed.memberParts {n : Node} (hf : n.Formed) (h : n.kind.isMember = true) :
    ∃ table tail, n.childrenAt .table = [table] ∧
      n.childrenAt .field ++ n.childrenAt .method = [tail] ∧ tail.kind = .identifier ∧
      n.memberParts? = some (table, tail) := by
  obtain ⟨-, htable, htail⟩ := hf.member h
  obtain ⟨table, htable⟩ := List.length_eq_one_iff.1 htable
  obtain ⟨tail, htail, hname⟩ := List.map_eq_singleton_iff.1 htail
  refine ⟨table, tail, htable, htail, by simpa [isIdentifier] using hname, ?_⟩
  have htail? : n.memberTail? = some tail := by
    unfold memberTail?
    rw [child?_eq, child?_eq]
    rcases List.append_eq_singleton_iff.1 htail with ⟨hfield, hmethod⟩ | ⟨hfield, hmethod⟩
    · simp [hfield, hmethod]
    · simp [hfield]
  rw [memberParts?, htail?, child?_eq, htable]
  rfl

/-- A formed call has a callee and arguments. -/
theorem Formed.callParts {n : Node} (hf : n.Formed) (h : n.kind = .functionCall) :
    ∃ callee arguments, n.childrenAt .name = [callee] ∧ n.childrenAt .arguments = [arguments] ∧
      n.callParts = (some callee, some arguments) := by
  obtain ⟨-, hname, harguments⟩ := hf.call h
  obtain ⟨callee, hname⟩ := List.length_eq_one_iff.1 hname
  obtain ⟨arguments, harguments⟩ := List.length_eq_one_iff.1 harguments
  refine ⟨callee, arguments, hname, harguments, ?_⟩
  rw [Node.callParts, child?_eq, child?_eq, hname, harguments]
  rfl

/-- A formed assignment has a list of targets and one of values. -/
theorem Formed.assignmentLists {n : Node} (hf : n.Formed) (h : n.kind = .assignmentStatement) :
    ∃ targets values, targets.kind = .variableList ∧ values.kind = .expressionList ∧
      n.parts.Perm [targets, values] ∧
      n.assignmentParts = (targets.parts.filter (·.kind ≠ .attrib), values.parts) := by
  rcases List.perm_pair.1 (hf.assignment h) with hkinds | hkinds
  all_goals
    obtain ⟨a, rest, hparts, ha, hrest⟩ := List.map_eq_cons_iff.1 hkinds
    obtain ⟨b, rfl, hb⟩ := List.map_eq_singleton_iff.1 hrest
  · refine ⟨a, b, ha, hb, by rw [hparts], ?_⟩
    simp [assignmentParts, lastPart?, hparts, ha, hb]
  · refine ⟨b, a, hb, ha, hparts ▸ .swap b a [], ?_⟩
    simp [assignmentParts, lastPart?, hparts, ha, hb]

/-- A formed declaration has names and values that an assignment has, or no values. -/
theorem Formed.declarationParts {n : Node} (hf : n.Formed) (h : n.kind = .variableDeclaration) :
    ∃ c, n.parts = [c] ∧
      (c.kind = .variableList ∧ c.DeclaresNames ∧
        n.declarationParts = (c.parts.filter isIdentifier, []) ∨
      c.kind = .assignmentStatement ∧
        (∀ v ∈ c.parts, v.kind = .variableList → v.DeclaresNames) ∧
        n.declarationParts = (c.assignmentParts.1.filter isIdentifier, c.assignmentParts.2)) := by
  obtain ⟨hone, hpart⟩ := hf.declaration h
  obtain ⟨c, hparts⟩ := List.length_eq_one_iff.1 hone
  refine ⟨c, hparts, ?_⟩
  rcases hpart c (by simp [hparts]) with ⟨hkind, hnames⟩ | ⟨hkind, hnames⟩
  · refine .inl ⟨hkind, hnames, ?_⟩
    simp [Node.declarationParts, hparts, hkind, declaredNames]
  · refine .inr ⟨hkind, hnames, ?_⟩
    simp [Node.declarationParts, hparts, hkind]

end Node

end LuaSymbols
