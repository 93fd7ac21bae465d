import Mathlib
import LuaSymbols.Proofs.Walk.Steps

/-!
# The walk against the order of the text

`Node.sites` are the nodes of a tree that pass a test, in the order of the text. The walk
passes over some nodes: tokens and comments, names and the lists that hold other nodes
together, and what the grammar lets hold no name. Where a test finds nothing among these
(`Noted`), what it finds in a tree is the root, if that passes, and what it finds in the nodes
that the walk goes on to, in their order (`Noted.sites_eq`). The parts of a construct have to
come in the order of the grammar for this (`Arranged`).
-/

namespace LuaSymbols

theorem flatMap_filter_of_nil {α β : Type} {l : List α} {q : α → Bool} {f : α → List β}
    (h : ∀ a ∈ l, q a = false → f a = []) : (l.filter q).flatMap f = l.flatMap f := by
  induction l with
  | nil => rfl
  | cons a l ih =>
    have hl := ih fun b hb => h b (List.mem_cons_of_mem a hb)
    cases hq : q a with
    | true => rw [List.filter_cons_of_pos hq, List.flatMap_cons, List.flatMap_cons, hl]
    | false =>
      rw [List.filter_cons_of_neg (by simp [hq]), List.flatMap_cons, h a List.mem_cons_self hq, hl]
      rfl

/-- Where what passes a test comes first, the test cuts the list in two. -/
theorem filter_append_filter_not {α : Type} {l : List α} {q : α → Bool}
    (h : l.Pairwise fun a b => q b = true → q a = true) :
    l.filter q ++ l.filter (fun a => !q a) = l := by
  induction l with
  | nil => rfl
  | cons a l ih =>
    obtain ⟨hfirst, hrest⟩ := List.pairwise_cons.1 h
    cases hq : q a with
    | true =>
      rw [List.filter_cons_of_pos hq, List.filter_cons_of_neg (by simp [hq]), List.cons_append,
        ih hrest]
    | false =>
      have hnone : ∀ b ∈ a :: l, ¬ q b = true := by
        refine List.forall_mem_cons.2 ⟨by simp [hq], fun b hb hqb => ?_⟩
        simp [hfirst b hb hqb] at hq
      rw [List.filter_eq_nil_iff.2 hnone, List.nil_append,
        List.filter_eq_self.2 fun b hb => by simpa using hnone b hb]

/-- Names, and the lists that hold other nodes together. -/
def Kind.isAuxiliary : Kind → Bool
  | identifier | variableList | expressionList | parameters => .true
  | _ => .false

namespace Node

/-! ## The order of parts -/

/-- Whether a node is in a place of its parent. -/
def isAt (f : Field) (n : Node) : Bool := n.label.field = some f

/-- The parts of a construct come in the order of the grammar: names first and bodies last,
targets before values. -/
@[mk_iff]
structure Ordered (n : Node) : Prop where
  places : n.kind = .functionCall ∨ n.kind.isFunction = true → n.parts.Pairwise fun a b =>
    (b.isAt .name = true → a.isAt .name = true) ∧ (a.isAt .body = true → b.isAt .body = true)
  assignment : n.kind = .assignmentStatement →
    n.parts.map kind = [.variableList, .expressionList]

instance (n : Node) : Decidable n.Ordered := decidable_of_iff' _ (ordered_iff n)

/-- Every node of a tree has its parts in order. -/
def Arranged (n : Node) : Prop := ∀ m ∈ n.nodes, m.Ordered

instance (n : Node) : Decidable n.Arranged :=
  inferInstanceAs (Decidable (∀ m ∈ n.nodes, _))

theorem Arranged.ordered {n : Node} (h : n.Arranged) : n.Ordered := h n n.self_mem_nodes

theorem Arranged.below {n m : Node} (h : n.Arranged) (hm : n.Below m) : m.Arranged :=
  fun m' hm' => h m' (hm.nodes_subset hm')

/-- An assignment has its list of targets before that of its values. -/
theorem Ordered.assignmentLists {n : Node} (h : n.Ordered) (hkind : n.kind = .assignmentStatement) :
    ∃ targets values, targets.kind = .variableList ∧ values.kind = .expressionList ∧
      n.parts = [targets, values] ∧
      n.assignmentParts = (targets.parts.filter (·.kind ≠ .attrib), values.parts) := by
  obtain ⟨targets, rest, hparts, htargets, hrest⟩ := List.map_eq_cons_iff.1 (h.assignment hkind)
  obtain ⟨values, rfl, hvalues⟩ := List.map_eq_singleton_iff.1 hrest
  refine ⟨targets, values, htargets, hvalues, hparts, ?_⟩
  simp [assignmentParts, lastPart?, hparts, htargets, hvalues]

/-- Parts in three places come place by place. -/
theorem parts_by_place {n : Node} {f : Field} (hname : f ≠ .name) (hbody : f ≠ .body)
    (hparts : n.PartsIn [.name, f, .body])
    (horder : n.parts.Pairwise fun a b => (b.isAt .name = true → a.isAt .name = true) ∧
      (a.isAt .body = true → b.isAt .body = true)) :
    n.parts.filter (isAt .name) ++ (n.parts.filter (isAt f) ++ n.parts.filter (isAt .body)) =
      n.parts := by
  have hplace (c : Node) (hc : c ∈ n.parts) : c.label.field = some .name ∨
      c.label.field = some f ∨ c.label.field = some .body := by
    simpa [PartsIn] using hparts c hc
  have hrest := horder.sublist (List.filter_sublist (p := fun c => !c.isAt .name))
  have hlast : (n.parts.filter fun c => !c.isAt .name).Pairwise fun a b =>
      (!b.isAt .body) = true → (!a.isAt .body) = true := by
    refine hrest.imp fun {a b} hab hb => ?_
    cases ha : a.isAt .body with
    | false => rfl
    | true => simp [hab.2 ha] at hb
  have hcut := filter_append_filter_not hlast
  have hmiddle : (n.parts.filter fun c => !c.isAt .name).filter (fun c => !c.isAt .body) =
      n.parts.filter (isAt f) := by
    rw [List.filter_filter]
    refine List.filter_congr fun c hc => ?_
    rcases hplace c hc with hc | hc | hc <;> simp [isAt, hc, hname, hbody, hname.symm, hbody.symm]
  have hend : (n.parts.filter fun c => !c.isAt .name).filter (fun c => !!c.isAt .body) =
      n.parts.filter (isAt .body) := by
    rw [List.filter_filter]
    refine List.filter_congr fun c hc => ?_
    rcases hplace c hc with hc | hc | hc <;> simp [isAt, hc, hname, hbody]
  rw [hmiddle, hend] at hcut
  rw [hcut, filter_append_filter_not (horder.imp And.left)]

/-! ## Sites -/

/-- The nodes of a tree that pass a test, in the order of the text. -/
def sites (p : Node → Bool) (n : Node) : List Node := n.nodes.filter p

theorem sites_eq_children (p : Node → Bool) (n : Node) :
    n.sites p = [n].filter p ++ n.children.flatMap (sites p) := by
  rw [sites, nodes_eq, ← List.singleton_append, List.filter_append, List.filter_flatMap]
  rfl

/-- A test that finds nothing among the nodes that the walk passes over. -/
structure Noted (p : Node → Bool) : Prop where
  names : ∀ n : Node, n.Shaped → p n = true → n.names false ≠ []
  kind : ∀ n : Node, p n = true → n.kind.isAuxiliary = false
  /-- Declarations have assignments in them that are no statements. -/
  target : ∀ n : Node, n.Shaped → p n = true → n.kind = .assignmentStatement →
    ∃ t ∈ n.assignmentParts.1, t.isIdentifier = false

namespace Noted

variable {p : Node → Bool} (hp : Noted p)
include hp

/-! ### Where nothing is found -/

theorem sites_of_leaf {n : Node} (hs : n.Shaped) (h : n.children = []) : n.sites p = [] := by
  rw [sites, nodes_eq, h]
  refine List.filter_eq_nil_iff.2 fun m hm hpm => ?_
  obtain rfl := List.mem_singleton.1 hm
  have hname : m.kind ≠ .identifier := by
    intro hkind
    have haux := hp.kind m hpm
    rw [hkind] at haux
    cases haux
  refine hp.names m hs hpm ?_
  rw [names_eq, if_neg hname, h]
  split <;> rfl

theorem sites_of_no_names {n : Node} (hs : n.Shaped) (h : n.names false = []) :
    n.sites p = [] := by
  induction n using induction with
  | h n ih =>
    have hself : [n].filter p = [] := by
      refine List.filter_eq_nil_iff.2 fun m hm hpm => ?_
      obtain rfl := List.mem_singleton.1 hm
      exact hp.names m hs hpm h
    rw [sites_eq_children, hself, List.nil_append, List.flatMap_eq_nil_iff]
    intro c hc
    cases haside : n.kind.isAside with
    | true =>
      have hleaf := (hs.formed.aside haside c hc).1
      exact hp.sites_of_leaf (hs.child hc) (by simpa [isLeaf] using hleaf)
    | false => exact ih c hc (hs.child hc) (child_names_eq_nil haside h hc).2

theorem sites_of_aside {n : Node} (hs : n.Shaped) (h : n.kind.isAside = true) :
    n.sites p = [] :=
  hp.sites_of_no_names hs (names_of_aside h false)

theorem sites_of_identifier {n : Node} (hs : n.Shaped) (h : n.isIdentifier = true) :
    n.sites p = [] :=
  hp.sites_of_leaf hs (by simpa [isLeaf] using hs.formed.name h)

/-- Nothing is found in comments and tokens. -/
theorem sites_of_not_part {n : Node} (hs : n.Shaped) (h : n.isPart = false) :
    n.sites p = [] := by
  by_cases hcomment : n.kind = .comment
  · exact hp.sites_of_aside hs (by rw [hcomment]; rfl)
  · have hnamed : n.named = false := by simpa [isPart, hcomment] using h
    exact hp.sites_of_leaf hs (by simpa [isLeaf] using (hs.formed.token hnamed).1)

/-! ### Where to look -/

/-- All that is found below a node is in its parts. -/
theorem sites_eq_parts {n : Node} (hs : n.Shaped) :
    n.sites p = [n].filter p ++ n.parts.flatMap (sites p) := by
  rw [sites_eq_children, parts, flatMap_filter_of_nil]
  exact fun c hc hpart => hp.sites_of_not_part (hs.child hc) hpart

theorem sites_of_auxiliary {n : Node} (hs : n.Shaped) (h : n.kind.isAuxiliary = true) :
    n.sites p = n.parts.flatMap (sites p) := by
  have hself : [n].filter p = [] := by
    refine List.filter_eq_nil_iff.2 fun m hm hpm => ?_
    obtain rfl := List.mem_singleton.1 hm
    simp [hp.kind m hpm] at h
  rw [hp.sites_eq_parts hs, hself, List.nil_append]

/-- In a place of a node as many are found as in the parts that are there. -/
theorem sites_at {n : Node} (hs : n.Shaped) (f : Field) :
    (n.parts.filter (isAt f)).flatMap (sites p) = (n.childrenAt f).flatMap (sites p) := by
  rw [parts, List.filter_comm, show n.childrenAt f = n.children.filter (isAt f) from rfl,
    flatMap_filter_of_nil]
  exact fun c hc hpart =>
    hp.sites_of_not_part (hs.child (List.mem_filter.1 hc).1) hpart

theorem sites_of_declares {n : Node} (hs : n.Shaped) (h : n.DeclaresNames) :
    n.parts.flatMap (sites p) = [] := by
  refine List.flatMap_eq_nil_iff.2 fun c hc => ?_
  have hc' := hs.child (mem_of_parts hc)
  rcases h c hc with hname | hkind
  · exact hp.sites_of_identifier hc' hname
  · exact hp.sites_of_aside hc' (by rw [hkind]; rfl)

/-! ### One step -/

theorem sites_of_member {n : Node} (hs : n.Shaped) (h : n.kind.isMember = true) :
    n.children.flatMap (sites p) = (n.memberParts?.map Prod.fst).toList.flatMap (sites p) := by
  obtain ⟨table, tail, htable, htail, hname, hmember⟩ := hs.formed.memberParts h
  have hothers : ∀ c ∈ n.children, c.isAt .table = false → c.sites p = [] := by
    intro c hc hplace
    cases hpart : c.isPart with
    | false => exact hp.sites_of_not_part (hs.child hc) hpart
    | true =>
      have hplaces := (hs.formed.member h).1 c (List.mem_filter.2 ⟨hc, hpart⟩)
      have hmem : c ∈ n.childrenAt .field ++ n.childrenAt .method := by
        simp only [isAt, decide_eq_false_iff_not] at hplace
        simp only [childrenAt, List.mem_append, List.mem_filter, decide_eq_true_eq]
        simpa [hc, hplace] using hplaces
      rw [htail, List.mem_singleton] at hmem
      exact hp.sites_of_identifier (hs.child hc) (by simp [hmem, isIdentifier, hname])
  rw [← flatMap_filter_of_nil hothers, hmember]
  exact congrArg (List.flatMap (sites p)) htable

theorem sites_of_call {n : Node} (hs : n.Shaped) (ho : n.Ordered) (h : n.kind = .functionCall) :
    n.parts.flatMap (sites p) =
      (n.callParts.1.toList ++ n.callParts.2.toList).flatMap (sites p) := by
  obtain ⟨callee, arguments, hname, harguments, hcall⟩ := hs.formed.callParts h
  have hplace (c : Node) (hc : c ∈ n.parts) : c.label.field = some .name ∨
      c.label.field = some .arguments := by
    simpa using (hs.formed.call h).1 c hc
  have hparts : n.PartsIn [.name, .arguments, .body] := by
    intro c hc
    rcases hplace c hc with hc | hc <;> simp [hc]
  have hbody : n.parts.filter (isAt .body) = [] := by
    refine List.filter_eq_nil_iff.2 fun c hc => ?_
    rcases hplace c hc with hc | hc <;> simp [isAt, hc]
  rw [← parts_by_place (by decide) (by decide) hparts (ho.places (.inl h)), hbody, List.append_nil,
    List.flatMap_append, hp.sites_at hs, hp.sites_at hs, hname, harguments, hcall]
  simp

theorem sites_of_function {n : Node} (hs : n.Shaped) (ho : n.Ordered)
    (h : n.kind.isFunction = true) :
    n.parts.flatMap (sites p) = ((n.child? .name).toList ++
      (n.child? .parameters).elim [] parts ++ n.childrenAt .body).flatMap (sites p) := by
  obtain ⟨hparts, hname, hparameters, hkind⟩ := hs.formed.function h
  -- the list of parameters is passed over, its parts are visited
  have hlist : (n.childrenAt .parameters).flatMap (sites p) =
      ((n.child? .parameters).elim [] parts).flatMap (sites p) := by
    rw [← toList_child? hparameters] at hkind ⊢
    cases hps : n.child? .parameters with
    | none => rfl
    | some ps =>
      have haux : ps.kind.isAuxiliary = true := by
        rw [hkind ps (by simp [hps])]
        rfl
      simp [hp.sites_of_auxiliary (hs.child (mem_of_child? hps)) haux]
  rw [← parts_by_place (by decide) (by decide) hparts (ho.places (.inr h)), toList_child? hname]
  simp only [List.flatMap_append, hp.sites_at hs, hlist, List.append_assoc]

theorem sites_of_assignment {n : Node} (hs : n.Shaped) (ho : n.Ordered)
    (h : n.kind = .assignmentStatement) :
    n.parts.flatMap (sites p) =
      (n.assignmentParts.1 ++ n.assignmentParts.2).flatMap (sites p) := by
  obtain ⟨targets, values, htargets, hvalues, hparts, hassignment⟩ := ho.assignmentLists h
  have hshaped (c : Node) (hc : c ∈ [targets, values]) : c.Shaped :=
    hs.child (mem_of_parts (hparts ▸ hc))
  have hfilter : (targets.parts.filter (·.kind ≠ .attrib)).flatMap (sites p) =
      targets.parts.flatMap (sites p) := by
    refine flatMap_filter_of_nil fun c hc hattrib => ?_
    have hkind : c.kind = .attrib := by simpa using hattrib
    have hc := (hshaped targets (by simp)).child (mem_of_parts hc)
    exact hp.sites_of_aside hc (by rw [hkind]; rfl)
  rw [hparts, hassignment, List.flatMap_append, hfilter,
    ← hp.sites_of_auxiliary (hshaped targets (by simp)) (by rw [htargets]; rfl),
    ← hp.sites_of_auxiliary (hshaped values (by simp)) (by rw [hvalues]; rfl)]
  simp

theorem sites_of_declaration {n : Node} (hs : n.Shaped) (ha : n.Arranged)
    (h : n.kind = .variableDeclaration) :
    n.parts.flatMap (sites p) =
      (n.declarationParts.1 ++ n.declarationParts.2).flatMap (sites p) := by
  obtain ⟨c, hparts, hcase⟩ := hs.formed.declarationParts h
  have hchild : c ∈ n.children := mem_of_parts (by simp [hparts])
  have hc := hs.child hchild
  have hnone (ns : List Node) (hns : ∀ m ∈ ns, m.Shaped) :
      (ns.filter isIdentifier).flatMap (sites p) = [] := by
    refine List.flatMap_eq_nil_iff.2 fun m hm => ?_
    obtain ⟨hm, hname⟩ := List.mem_filter.1 hm
    exact hp.sites_of_identifier (hns m hm) hname
  rw [hparts, List.flatMap_cons, List.flatMap_nil, List.append_nil]
  rcases hcase with ⟨hkind, hnames, hdeclaration⟩ | ⟨hkind, hnames, hdeclaration⟩
  · rw [hp.sites_of_auxiliary hc (by rw [hkind]; rfl), hp.sites_of_declares hc hnames,
      hdeclaration, List.append_nil, hnone _ fun m hm => hc.child (mem_of_parts hm)]
  · obtain ⟨targets, values, htargets, -, hlists, hassignment⟩ :=
      (ha.below (.of_child hchild)).ordered.assignmentLists hkind
    have hmem : targets ∈ c.parts := by simp [hlists]
    have hdeclares := hnames targets hmem htargets
    have hidentifiers : ∀ t ∈ c.assignmentParts.1, t.isIdentifier = true := by
      rw [hassignment]
      intro t ht
      obtain ⟨ht, hattrib⟩ := List.mem_filter.1 ht
      exact (hdeclares t ht).resolve_right (by simpa using hattrib)
    -- the walk takes the lists out of the assignment and never visits it
    have hself : [c].filter p = [] := by
      refine List.filter_eq_nil_iff.2 fun m hm hpm => ?_
      obtain rfl := List.mem_singleton.1 hm
      obtain ⟨t, ht, hother⟩ := hp.target m hc hpm hkind
      simp [hidentifiers t ht] at hother
    rw [hp.sites_eq_parts hc, hself, List.nil_append,
      hp.sites_of_assignment hc (ha.below (.of_child hchild)).ordered hkind, hdeclaration,
      List.filter_eq_self.2 hidentifiers]

/-- Where the walk knows no handler nothing is found, nor in the body. -/
theorem sites_of_unhandled {n : Node} (hs : n.Shaped) (h : n.kind.isHandled = false) :
    n.sites p = [n].filter p ++ (n.childrenAt .body).flatMap (sites p) := by
  have hnone := hp.sites_of_no_names hs (hs.formed.unhandled h)
  have hsplit := hnone
  rw [sites_eq_children, List.append_eq_nil_iff, List.flatMap_eq_nil_iff] at hsplit
  have hbody : (n.childrenAt .body).flatMap (sites p) = [] :=
    List.flatMap_eq_nil_iff.2 fun c hc => hsplit.2 c (mem_of_childrenAt hc)
  rw [hnone, hsplit.1, hbody, List.append_nil]

/-- What is found in a tree is found at its root, and in the nodes that the walk goes on to. -/
theorem sites_eq {n : Node} (hs : n.Shaped) (ha : n.Arranged) :
    n.sites p = [n].filter p ++ n.next.flatMap (sites p) := by
  have hparts := hp.sites_eq_parts hs
  unfold next
  split <;> rename_i hkind
  · have hleaf := hs.formed.name (by simp [isIdentifier, hkind])
    rw [sites_eq_children, show n.children = [] by simpa [isLeaf] using hleaf]
  · rw [sites_eq_children, hp.sites_of_member hs (by rw [hkind]; rfl)]
  · rw [sites_eq_children, hp.sites_of_member hs (by rw [hkind]; rfl)]
  · rw [hparts, hp.sites_of_declaration hs ha hkind]
  · rw [hparts, hp.sites_of_assignment hs ha.ordered hkind]
  · rw [hparts, hp.sites_of_function hs ha.ordered (by rw [hkind]; rfl)]
  · rw [hparts, hp.sites_of_function hs ha.ordered (by rw [hkind]; rfl)]
  · rw [hparts, hp.sites_of_call hs ha.ordered hkind]
  · exact hparts
  · exact hparts
  · split
    · exact hparts
    · next hcontainer =>
      have hhandled : n.kind.isHandled = false := by
        unfold Kind.isHandled
        split <;> simp_all
      exact hp.sites_of_unhandled hs hhandled

end Noted

end Node

end LuaSymbols
