import Mathlib
import LuaSymbols.Proofs.Walk.Outline

/-!
# Where names are declared

The sites of a tree are its identifiers, its member accesses and its named functions. A walk
declares names at sites alone, but the handlers of a statement look ahead: the targets of an
assignment, the names of a loop and the keys in a table are declared by the statement, and the
walk goes on to each of these nodes after that. `Walk.loose` are the sites of a tree that a
statement around it may declare. The walk of the tree itself declares none of them, and no
other site twice (`declaredAt_events`).
-/

namespace LuaSymbols

/-! ## What is declared -/

/-- The place of the name that an event declares. -/
def Event.declaredAt? : Event → Option Range
  | localName d | parameter d => some d.range
  | assignment a => some a.range
  | function f => some f.range
  | identifier _ | outline _ | includeCall _ _ | tooDeep => none

/-- The places of all declarations of a file. -/
def Bindings.places (b : Bindings) : List Range :=
  b.locals.map (·.range) ++ b.parameters.map (·.range) ++ b.assignments.map (·.range) ++
    b.functions.map (·.range)

namespace Trace

/-- The places at which names are declared, each as often as that is done. -/
def declaredAt (t : Trace) : Multiset Range := (t.filterMap Event.declaredAt? : List Range)

@[simp]
theorem declaredAt_nil : declaredAt [] = 0 := rfl

@[simp]
theorem declaredAt_append (t t₂ : Trace) : declaredAt (t ++ t₂) = t.declaredAt + declaredAt t₂ := by
  simp [declaredAt]

theorem declaredAt_perm {t t₂ : Trace} (h : t.Perm t₂) : t.declaredAt = t₂.declaredAt :=
  Multiset.coe_eq_coe.2 (h.filterMap _)

theorem declaredAt_flatMap {α : Type} (l : List α) (f : α → Trace) :
    declaredAt (l.flatMap f) = (l.map fun a => declaredAt (f a)).sum := by
  induction l with
  | nil => rfl
  | cons a l ih => rw [List.flatMap_cons, declaredAt_append, ih, List.map_cons, List.sum_cons]

/-- The lists of declarations hold what was declared. -/
theorem places_bindings (t : Trace) : (t.bindings.places : Multiset Range) = t.declaredAt := by
  refine Multiset.coe_eq_coe.2 ?_
  induction t with
  | nil => exact .refl _
  | cons e t ih =>
    cases e with
    | localName d => exact ih.cons _
    | parameter d => exact ((List.perm_middle.append_right _).append_right _).trans (ih.cons _)
    | assignment a => exact (List.perm_middle.append_right _).trans (ih.cons _)
    | function f => exact List.perm_middle.trans (ih.cons _)
    | identifier | outline | includeCall | tooDeep => exact ih

end Trace

namespace Node

/-- A name or a chain of names, as can be declared by an assignment. -/
def isAccess (n : Node) : Bool := n.isIdentifier || n.kind.isMember

/-- A node at which a name may be declared. -/
def isSite (n : Node) : Bool := n.isAccess || n.isNamedFunction

theorem isAccess_of_target? {n : Node} (h : n.target?.isSome = true) : n.isAccess = true := by
  unfold target? at h
  unfold isAccess isIdentifier
  split at h
  · next hkind => simp [hkind]
  · split at h
    · next hmember => simp [hmember]
    · cases h

theorem isAccess_of_isIdentifier {n : Node} (h : n.isIdentifier = true) : n.isAccess = true := by
  simp [isAccess, h]

end Node

namespace Walk

/-! ## Sums over nodes -/

/-- What is at some nodes, taken together. -/
def gather (f : Node → Multiset Range) (ns : List Node) : Multiset Range := (ns.map f).sum

section
variable {f g : Node → Multiset Range} {ns ms : List Node}

@[simp]
theorem gather_nil : gather f [] = 0 := rfl

@[simp]
theorem gather_cons (n : Node) : gather f (n :: ns) = f n + gather f ns := rfl

@[simp]
theorem gather_append : gather f (ns ++ ms) = gather f ns + gather f ms := by
  simp [gather]

theorem gather_add : gather f ns + gather g ns = gather (fun n => f n + g n) ns :=
  List.sum_map_add.symm

theorem gather_perm (h : ns.Perm ms) : gather f ns = gather f ms := (h.map f).sum_eq

theorem gather_flatMap (l : Node → List Node) :
    gather f (ns.flatMap l) = gather (fun n => gather f (l n)) ns := by
  induction ns with
  | nil => rfl
  | cons n ns ih => rw [List.flatMap_cons, gather_append, ih, gather_cons]

theorem gather_le (h : ∀ n ∈ ns, f n ≤ g n) : gather f ns ≤ gather g ns := List.sum_le_sum h

theorem gather_le_of_sublist (h : ns.Sublist ms) : gather f ns ≤ gather f ms :=
  (h.map f).sum_le_sum fun _ _ => zero_le

theorem le_gather {n : Node} (h : n ∈ ns) : f n ≤ gather f ns := by
  simpa using gather_le_of_sublist (f := f) (List.singleton_sublist.2 h)

theorem gather_toList_le {n? : Option Node} (h : ∀ n, n? = some n → n ∈ ns) :
    gather f n?.toList ≤ gather f ns := by
  cases n? with
  | none => exact zero_le
  | some n => simpa using le_gather (h n rfl)

/-- Nodes have one place at most, so a sum place by place counts none of them twice. -/
theorem gather_places (places : List Field) (hplaces : places.Nodup) (cs : List Node) :
    (places.map fun p => gather f (cs.filter (Node.isAt p))).sum ≤ gather f cs := by
  induction places generalizing cs with
  | nil => exact zero_le
  | cons p places ih =>
    obtain ⟨hp, hplaces⟩ := List.nodup_cons.1 hplaces
    have hsplit := gather_perm (f := f) (List.filter_append_perm (Node.isAt p) cs)
    have hothers : (places.map fun q => gather f (cs.filter (Node.isAt q))) =
        places.map fun q => gather f ((cs.filter (!Node.isAt p ·)).filter (Node.isAt q)) := by
      refine List.map_congr_left fun q hq => ?_
      have hne : p ≠ q := fun he => hp (he ▸ hq)
      rw [List.filter_filter]
      congr 1
      refine List.filter_congr fun c _ => ?_
      by_cases hc : c.label.field = some q
      · simp [Node.isAt, hc, hne.symm]
      · simp [Node.isAt, hc]
    rw [List.map_cons, List.sum_cons, hothers, ← hsplit, gather_append]
    exact add_le_add_right (ih hplaces _) _

end

variable (w : Walk)

/-! ## Sites -/

/-- The place of a node if it is a site. -/
def ownSite (n : Node) : Multiset Range := if n.isSite then {w.range n} else 0

/-- The places of the sites of a tree. -/
def sitesAt (n : Node) : Multiset Range := ((n.sites Node.isSite).map w.range : List Range)

/-- No two sites of a tree have one place. -/
def Apart (root : Node) : Prop := ((root.sites Node.isSite).map w.range).Nodup

instance (root : Node) : Decidable (w.Apart root) :=
  inferInstanceAs (Decidable (List.Nodup _))

theorem sitesAt_eq (n : Node) : w.sitesAt n = w.ownSite n + gather w.sitesAt n.children := by
  have hbelow : (((n.children.flatMap (Node.sites Node.isSite)).map w.range : List Range) :
      Multiset Range) = gather w.sitesAt n.children := by
    induction n.children with
    | nil => rfl
    | cons c cs ih =>
      rw [List.flatMap_cons, List.map_append, ← Multiset.coe_add, ih]
      rfl
  rw [sitesAt, Node.sites_eq_children, List.map_append, ← Multiset.coe_add, hbelow, ownSite,
    List.filter_singleton]
  cases n.isSite <;> rfl

theorem gather_sitesAt_parts (n : Node) : gather w.sitesAt n.parts ≤ w.sitesAt n := by
  rw [sitesAt_eq]
  exact (gather_le_of_sublist List.filter_sublist).trans le_add_self

mutual
/-- The places in a tree that a statement around it may declare: those of a name or a chain of
names, and those in the nodes that hold such nodes together. -/
def loose (w : Walk) : Node → Multiset Range
  | .mk l cs =>
    if (Node.mk l cs).isAccess then {w.range (.mk l cs)}
    else if l.kind.isContainer then looseAmong w cs
    else 0

def looseAmong (w : Walk) : List Node → Multiset Range
  | [] => 0
  | c :: cs => loose w c + looseAmong w cs
end

theorem looseAmong_eq (cs : List Node) : looseAmong w cs = gather (loose w) cs := by
  induction cs with
  | nil => rw [looseAmong, gather_nil]
  | cons c cs ih => rw [looseAmong, ih, gather_cons]

theorem loose_eq (n : Node) : w.loose n =
    if n.isAccess then {w.range n}
    else if n.kind.isContainer then gather w.loose n.children
    else 0 := by
  cases n with
  | mk l cs =>
    rw [loose, looseAmong_eq]
    rfl

theorem loose_of_isAccess {n : Node} (h : n.isAccess = true) : w.loose n = {w.range n} := by
  rw [loose_eq, if_pos h]

theorem loose_of_isContainer {n : Node} (h : n.kind.isContainer = true) :
    w.loose n = gather w.loose n.children := by
  have haccess : n.isAccess = false := by
    cases hk : n.kind <;> simp_all [Kind.isContainer, Kind.isMember, Node.isAccess,
      Node.isIdentifier]
  simp [loose_eq, haccess, h]

theorem loose_eq_zero {n : Node} (haccess : n.isAccess = false)
    (hcontainer : n.kind.isContainer = false) : w.loose n = 0 := by
  simp [loose_eq, haccess, hcontainer]

/-- What is loose is a site. -/
theorem loose_le_sitesAt (n : Node) : w.loose n ≤ w.sitesAt n := by
  induction n using Node.induction with
  | h n ih =>
    rw [loose_eq, sitesAt_eq]
    split
    · next haccess =>
      rw [ownSite, if_pos (by simp [Node.isSite, haccess])]
      exact le_self_add
    · split
      · exact (gather_le ih).trans le_add_self
      · exact zero_le

/-- Nothing is loose in comments and tokens. -/
theorem loose_of_not_part {n : Node} (hs : n.Shaped) (h : n.isPart = false) : w.loose n = 0 := by
  by_cases hcomment : n.kind = .comment
  · exact w.loose_eq_zero (by simp [Node.isAccess, Node.isIdentifier, hcomment, Kind.isMember])
      (by simp [hcomment, Kind.isContainer])
  · have hnamed : n.named = false := by simpa [Node.isPart, hcomment] using h
    obtain ⟨hleaf, hname⟩ := hs.formed.token hnamed
    have hchildren : n.children = [] := by simpa [Node.isLeaf] using hleaf
    have hmember : n.kind.isMember = false := by
      by_contra hmember
      obtain ⟨-, htable, -⟩ := hs.formed.member (by simpa using hmember)
      simp [Node.childrenAt, hchildren] at htable
    have haccess : n.isAccess = false := by simp [Node.isAccess, hname, hmember]
    rw [loose_eq, haccess, hchildren]
    simp

theorem gather_loose_parts {n : Node} (hs : n.Shaped) :
    gather w.loose n.parts = gather w.loose n.children :=
  sum_map_filter fun _ hc hpart => w.loose_of_not_part (hs.child hc) hpart

/-- The names among some nodes are loose there. -/
theorem range_identifiers_le_loose (ns : List Node) :
    (((ns.filter Node.isIdentifier).map w.range : List Range) : Multiset Range) ≤
      gather w.loose ns := by
  induction ns with
  | nil => exact zero_le
  | cons n ns ih =>
    rw [List.filter_cons]
    split
    · next hname =>
      rw [gather_cons, w.loose_of_isAccess (Node.isAccess_of_isIdentifier hname), List.map_cons,
        ← Multiset.cons_coe, ← Multiset.singleton_add]
      exact add_le_add_right ih _
    · exact ih.trans le_add_self

/-! ## Tables -/

mutual
/-- The keys that a table gives to its owner are loose in it. -/
theorem declaredAt_tableEvents (owner : String) : (n : Node) →
    Trace.declaredAt (tableEvents w owner n) ≤ w.loose n
  | .mk l cs => by
    unfold tableEvents
    split
    · next hkind =>
      have hcontainer : (Node.mk l cs).kind.isContainer = true := by
        rw [show (Node.mk l cs).kind = .tableConstructor from hkind]
        rfl
      rw [w.loose_of_isContainer hcontainer]
      exact declaredAt_fieldEvents owner cs
    · exact zero_le

theorem declaredAt_fieldEvents (owner : String) : (cs : List Node) →
    Trace.declaredAt (fieldEvents w owner cs) ≤ gather w.loose cs
  | [] => by simp [fieldEvents]
  | .mk l cs :: rest => by
    rw [fieldEvents, Trace.declaredAt_append, gather_cons]
    refine add_le_add ?_ (declaredAt_fieldEvents owner rest)
    split
    · next hfield =>
      have hcontainer : (Node.mk l cs).kind.isContainer = true := by
        rw [show (Node.mk l cs).kind = .field from hfield.2]
        rfl
      rw [w.loose_of_isContainer hcontainer]
      split
      · next key hkey =>
        split
        · next hname =>
          -- key and value are in different places of the field
          have hplaces := gather_places (f := w.loose) [.name, .value] (by decide) cs
          have hkey' : {w.range key} ≤ gather w.loose (cs.filter (Node.isAt .name)) := by
            rw [← w.loose_of_isAccess (Node.isAccess_of_isIdentifier hname)]
            exact le_gather (List.mem_filter.2 ⟨List.mem_of_find?_eq_some hkey,
              List.find?_some hkey⟩)
          have hvalue := declaredAt_valueEvents (owner ++ "." ++ key.text) cs
          simp only [List.map_cons, List.map_nil, List.sum_cons, List.sum_nil, add_zero] at hplaces
          exact (add_le_add hkey' hvalue).trans hplaces
        · exact zero_le
      · exact zero_le
    · exact zero_le

theorem declaredAt_valueEvents (owner : String) : (cs : List Node) →
    Trace.declaredAt (valueEvents w owner cs) ≤ gather w.loose (cs.filter (Node.isAt .value))
  | [] => by simp [valueEvents]
  | c :: rest => by
    rw [valueEvents]
    split
    · next hvalue =>
      rw [List.filter_cons_of_pos (by simpa [Node.isAt] using hvalue), gather_cons]
      exact (declaredAt_tableEvents owner c).trans le_self_add
    · next hvalue =>
      rw [List.filter_cons_of_neg (by simpa [Node.isAt] using hvalue)]
      exact declaredAt_valueEvents owner rest
end

theorem declaredAt_pairedFields (owner? : Node → Option String) (targets values : List Node) :
    Trace.declaredAt (w.pairedFields owner? targets values) ≤ gather w.loose values := by
  induction targets generalizing values with
  | nil => exact zero_le
  | cons t targets ih =>
    cases values with
    | nil => exact zero_le
    | cons v values =>
      rw [pairedFields, List.zip_cons_cons, List.flatMap_cons, Trace.declaredAt_append, gather_cons]
      refine add_le_add ?_ (ih values)
      change Trace.declaredAt ((owner? t).elim [] (tableEvents w · v)) ≤ w.loose v
      cases owner? t with
      | none => exact zero_le
      | some owner => exact w.declaredAt_tableEvents owner v

/-! ## One step -/

section
variable {n : Node}

theorem sitesAt_assignmentParts (hs : n.Shaped) (h : n.kind = .assignmentStatement) :
    gather w.sitesAt (n.assignmentParts.1 ++ n.assignmentParts.2) ≤
      gather w.sitesAt n.children := by
  obtain ⟨targets, values, -, -, hparts, hassignment⟩ := hs.formed.assignmentLists h
  have htargets : gather w.sitesAt (targets.parts.filter (·.kind ≠ .attrib)) ≤ w.sitesAt targets :=
    (gather_le_of_sublist List.filter_sublist).trans (w.gather_sitesAt_parts targets)
  calc gather w.sitesAt (n.assignmentParts.1 ++ n.assignmentParts.2)
      ≤ w.sitesAt targets + w.sitesAt values := by
        rw [hassignment, gather_append]
        exact add_le_add htargets (w.gather_sitesAt_parts values)
    _ = gather w.sitesAt n.parts := by
        rw [gather_perm hparts, gather_cons, gather_cons, gather_nil, add_zero]
    _ ≤ gather w.sitesAt n.children := gather_le_of_sublist List.filter_sublist

theorem sitesAt_declarationParts (hs : n.Shaped) (h : n.kind = .variableDeclaration) :
    gather w.sitesAt (n.declarationParts.1 ++ n.declarationParts.2) ≤
      gather w.sitesAt n.children := by
  obtain ⟨c, hparts, hcase⟩ := hs.formed.declarationParts h
  have hchild : c ∈ n.children := Node.mem_of_parts (by simp [hparts])
  suffices hc : gather w.sitesAt (n.declarationParts.1 ++ n.declarationParts.2) ≤ w.sitesAt c from
    hc.trans (le_gather hchild)
  rcases hcase with ⟨-, -, hdeclaration⟩ | ⟨hkind, -, hdeclaration⟩
  · rw [hdeclaration, List.append_nil]
    exact (gather_le_of_sublist List.filter_sublist).trans (w.gather_sitesAt_parts c)
  · rw [hdeclaration, sitesAt_eq]
    refine le_trans ?_ ((w.sitesAt_assignmentParts (hs.child hchild) hkind).trans le_add_self)
    exact gather_le_of_sublist (List.filter_sublist.append (.refl _))

theorem sitesAt_functionParts (n : Node) :
    gather w.sitesAt ((n.child? .name).toList ++ (n.child? .parameters).elim [] Node.parts ++
      n.childrenAt .body) ≤ gather w.sitesAt n.children := by
  have hplaces := gather_places (f := w.sitesAt) [.name, .parameters, .body] (by decide)
    n.children
  have hat {p : Field} {c : Node} (hc : n.child? p = some c) :
      c ∈ n.children.filter (Node.isAt p) :=
    List.mem_filter.2 ⟨Node.mem_of_child? hc, List.find?_some hc⟩
  have hname : gather w.sitesAt (n.child? .name).toList ≤
      gather w.sitesAt (n.children.filter (Node.isAt .name)) := gather_toList_le fun _ => hat
  have hparameters : gather w.sitesAt ((n.child? .parameters).elim [] Node.parts) ≤
      gather w.sitesAt (n.children.filter (Node.isAt .parameters)) := by
    cases hps : n.child? .parameters with
    | none => exact zero_le
    | some ps => exact (w.gather_sitesAt_parts ps).trans (le_gather (hat hps))
  simp only [List.map_cons, List.map_nil, List.sum_cons, List.sum_nil, add_zero,
    ← add_assoc] at hplaces
  rw [gather_append, gather_append]
  exact (add_le_add (add_le_add hname hparameters) le_rfl).trans hplaces

theorem sitesAt_callParts (hs : n.Shaped) (h : n.kind = .functionCall) :
    gather w.sitesAt (n.callParts.1.toList ++ n.callParts.2.toList) ≤
      gather w.sitesAt n.children := by
  obtain ⟨callee, arguments, hname, harguments, hcall⟩ := hs.formed.callParts h
  have hplaces := gather_places (f := w.sitesAt) [.name, .arguments] (by decide) n.children
  have hat (p : Field) : n.children.filter (Node.isAt p) = n.childrenAt p := rfl
  simpa [hcall, hat, hname, harguments] using hplaces

/-- What the walk goes on to lies apart: no site below a node is in two of these nodes. -/
theorem sitesAt_next (hs : n.Shaped) : gather w.sitesAt n.next ≤ gather w.sitesAt n.children := by
  have hparts : gather w.sitesAt n.parts ≤ gather w.sitesAt n.children :=
    gather_le_of_sublist List.filter_sublist
  unfold Node.next
  split
  · exact zero_le
  · exact gather_toList_le fun _ h => Node.mem_of_memberParts? (Option.mem_toList.2 h)
  · exact gather_toList_le fun _ h => Node.mem_of_memberParts? (Option.mem_toList.2 h)
  · next hkind => exact w.sitesAt_declarationParts hs hkind
  · next hkind => exact w.sitesAt_assignmentParts hs hkind
  · exact w.sitesAt_functionParts n
  · exact w.sitesAt_functionParts n
  · next hkind => exact w.sitesAt_callParts hs hkind
  · exact hparts
  · exact hparts
  · split
    · exact hparts
    · exact gather_le_of_sublist List.filter_sublist

/-! ### What a step declares -/

/-- Names that are declared one by one are loose. -/
theorem declaredAt_map_le {e : Node → Event} (he : ∀ n, (e n).declaredAt? = some (w.range n))
    (ns : List Node) :
    Trace.declaredAt ((ns.filter Node.isIdentifier).map e) ≤ gather w.loose ns := by
  have heq : Event.declaredAt? ∘ e = some ∘ w.range := funext he
  rw [Trace.declaredAt, List.filterMap_map, heq, List.filterMap_eq_map]
  exact w.range_identifiers_le_loose ns

theorem declaredAt_targets (ns : List Node) :
    Trace.declaredAt (ns.flatMap w.targetEvents) ≤ gather w.loose ns := by
  rw [Trace.declaredAt_flatMap]
  refine gather_le fun t _ => ?_
  unfold targetEvents
  split
  · next htarget =>
    rw [w.loose_of_isAccess (Node.isAccess_of_target? (by simp [htarget]))]
    exact le_rfl
  · exact zero_le

theorem declaredAt_functionEvents {name : Node} (hkind : n.kind.isFunction = true)
    (hname : n.child? .name = some name) :
    Trace.declaredAt (w.functionEvents n name) ≤ w.ownSite n := by
  unfold functionEvents
  split
  · next htarget =>
    split
    · exact zero_le
    · next hlabel =>
      have hnamed : n.isNamedFunction = true := by
        simp [Node.isNamedFunction, Node.functionTarget?, hkind, hname, htarget, hlabel]
      rw [ownSite, if_pos (by simp [Node.isSite, hnamed])]
      exact le_rfl
  · exact zero_le

theorem declaredAt_function (hkind : n.kind.isFunction = true) :
    Trace.declaredAt ((n.child? .name).elim [] (w.functionEvents n) ++
      (((n.child? .parameters).elim [] Node.parts).filter Node.isIdentifier).map
        (.parameter <| w.declaration ·)) ≤
      w.ownSite n + gather w.loose ((n.child? .name).toList ++
        (n.child? .parameters).elim [] Node.parts ++ n.childrenAt .body) := by
  have hname : Trace.declaredAt ((n.child? .name).elim [] (w.functionEvents n)) ≤ w.ownSite n := by
    cases hname : n.child? .name with
    | none => exact zero_le
    | some name => exact w.declaredAt_functionEvents hkind hname
  rw [Trace.declaredAt_append]
  refine add_le_add hname ((w.declaredAt_map_le (fun _ => rfl) _).trans ?_)
  rw [gather_append, gather_append]
  exact le_add_self.trans le_self_add

/-- The names that a loop introduces are among its parts or in a list there. -/
theorem declaredAt_loopNames (hs : n.Shaped) :
    Trace.declaredAt (n.loopNames.map (.localName <| w.declaration ·)) ≤
      gather w.loose n.parts := by
  unfold Node.loopNames
  split
  · rw [w.gather_loose_parts hs]
    refine (w.declaredAt_map_le (fun _ => rfl) _).trans ?_
    exact gather_toList_le fun _ => Node.mem_of_child?
  · refine (w.declaredAt_map_le (fun _ => rfl) _).trans ?_
    rw [gather_flatMap]
    refine le_trans (gather_le fun p hp => ?_) (gather_le_of_sublist List.filter_sublist)
    obtain ⟨hp, hkind⟩ := List.mem_filter.1 hp
    have hcontainer : p.kind.isContainer = true := by
      rw [of_decide_eq_true hkind]
      rfl
    rw [w.loose_of_isContainer hcontainer,
      w.gather_loose_parts (hs.child (Node.mem_of_parts hp))]

theorem declaredAt_member (n : Node) :
    Trace.declaredAt (n.memberParts?.elim [] fun (table, tail) => w.memberEvents n table tail) ≤
      gather w.loose (n.memberParts?.map Prod.fst).toList := by
  cases n.memberParts? <;> exact zero_le

theorem declaredAt_declaration (n : Node) :
    Trace.declaredAt (n.declarationParts.1.map (.localName <| w.declaration ·) ++
      w.pairedFields (some ·.text) n.declarationParts.1 n.declarationParts.2) ≤
      gather w.loose (n.declarationParts.1 ++ n.declarationParts.2) := by
  have hnames : n.declarationParts.1.filter Node.isIdentifier = n.declarationParts.1 :=
    List.filter_eq_self.2 fun _ => Node.isIdentifier_of_declarationParts
  have hlocals := w.declaredAt_map_le (e := (.localName <| w.declaration ·)) (fun _ => rfl)
    n.declarationParts.1
  rw [hnames] at hlocals
  rw [Trace.declaredAt_append, gather_append]
  exact add_le_add hlocals (w.declaredAt_pairedFields _ _ _)

theorem declaredAt_includeEvents (callee arguments : Option Node) {ns : List Node} :
    Trace.declaredAt (w.includeEvents callee arguments) ≤ gather w.loose ns := by
  unfold includeEvents
  split
  · split <;> exact zero_le
  · exact zero_le

/-- What a step declares is its own site or loose in the nodes that the walk goes on to. -/
theorem declaredAt_ownEvents (hs : n.Shaped) :
    Trace.declaredAt (w.ownEvents n) + w.loose n ≤ w.ownSite n + gather w.loose n.next := by
  have hloose (h : n.kind.isContainer = false) : w.loose n ≤ w.ownSite n := by
    rw [loose_eq, h]
    split
    · next haccess => rw [ownSite, if_pos (by simp [Node.isSite, haccess])]
    · exact zero_le
  have hstep {own : Trace} {next : List Node} (h : n.kind.isContainer = false)
      (hown : own.declaredAt ≤ gather w.loose next) :
      own.declaredAt + w.loose n ≤ w.ownSite n + gather w.loose next := by
    rw [add_comm]
    exact add_le_add (hloose h) hown
  have hfunction (h : n.kind.isFunction = true) : w.loose n = 0 := by
    cases hk : n.kind <;> simp_all [Kind.isFunction, loose_eq, Node.isAccess, Node.isIdentifier,
      Kind.isMember, Kind.isContainer]
  unfold ownEvents Node.next
  split <;> rename_i hkind
  · exact hstep (by rw [hkind]; rfl) zero_le
  · exact hstep (by rw [hkind]; rfl) (w.declaredAt_member n)
  · exact hstep (by rw [hkind]; rfl) (w.declaredAt_member n)
  · exact hstep (by rw [hkind]; rfl) (w.declaredAt_declaration n)
  · refine hstep (by rw [hkind]; rfl) ?_
    rw [Trace.declaredAt_append, gather_append]
    exact add_le_add (w.declaredAt_targets _) (w.declaredAt_pairedFields _ _ _)
  · rw [hfunction (by rw [hkind]; rfl), add_zero]
    exact w.declaredAt_function (by rw [hkind]; rfl)
  · rw [hfunction (by rw [hkind]; rfl), add_zero]
    exact w.declaredAt_function (by rw [hkind]; rfl)
  · exact hstep (by rw [hkind]; rfl) (w.declaredAt_includeEvents _ _)
  · exact hstep (by rw [hkind]; rfl) (w.declaredAt_loopNames hs)
  · exact hstep (by rw [hkind]; rfl) (w.declaredAt_loopNames hs)
  · split
    · next hcontainer =>
      rw [w.loose_of_isContainer hcontainer, w.gather_loose_parts hs, Trace.declaredAt_nil,
        zero_add]
      exact le_add_self
    · next hcontainer => exact hstep (by simpa using hcontainer) zero_le

/-! ## The whole walk -/

/-- The walk of a tree declares each site at most once, and none of those that a statement
around the tree may declare. -/
theorem declaredAt_events (depth : Nat) (hs : n.Shaped) :
    Trace.declaredAt (w.events depth n) + w.loose n ≤ w.sitesAt n := by
  induction depth generalizing n with
  | zero => exact (zero_add (w.loose n)).trans_le (w.loose_le_sitesAt n)
  | succ depth ih =>
    -- what a step takes of the loose sites below it is just what the walks there leave over
    have hnext : gather (fun c => Trace.declaredAt (w.events depth c)) n.next +
        gather w.loose n.next ≤ gather w.sitesAt n.next := by
      rw [gather_add]
      exact gather_le fun c hc => ih (hs.below (Node.below_of_next hc))
    calc Trace.declaredAt (w.events (depth + 1) n) + w.loose n
        = gather (fun c => Trace.declaredAt (w.events depth c)) n.next +
            (Trace.declaredAt (w.ownEvents n) + w.loose n) := by
          rw [Trace.declaredAt_perm (w.events_perm depth n), Trace.declaredAt_append,
            Trace.declaredAt_flatMap, add_comm (Trace.declaredAt (w.ownEvents n)), add_assoc]
          rfl
      _ ≤ gather (fun c => Trace.declaredAt (w.events depth c)) n.next +
            (w.ownSite n + gather w.loose n.next) := add_le_add_right (w.declaredAt_ownEvents hs) _
      _ = w.ownSite n + (gather (fun c => Trace.declaredAt (w.events depth c)) n.next +
            gather w.loose n.next) := add_left_comm _ _ _
      _ ≤ w.ownSite n + gather w.sitesAt n.children :=
          add_le_add_right (hnext.trans (w.sitesAt_next hs)) _
      _ = w.sitesAt n := (w.sitesAt_eq n).symm

end

/-- Where no two sites have one place, no two declarations of a walk have. -/
theorem nodup_places {root : Node} (hs : root.Shaped) (ha : w.Apart root) :
    (w.trace root).bindings.places.Nodup := by
  rw [← Multiset.coe_nodup, Trace.places_bindings]
  have hle : Trace.declaredAt (w.trace root) ≤ w.sitesAt root :=
    le_self_add.trans (w.declaredAt_events depthLimit hs)
  exact Multiset.nodup_of_le hle (Multiset.coe_nodup.2 ha)

end Walk

end LuaSymbols
