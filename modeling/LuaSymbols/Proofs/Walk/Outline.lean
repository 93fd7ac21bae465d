import Mathlib
import LuaSymbols.Lua.Grammar
import LuaSymbols.Proofs.Tree.Layout
import LuaSymbols.Proofs.Tree.Sites
import LuaSymbols.Proofs.Tree.Tokens
import LuaSymbols.Proofs.Walk.Coverage

/-!
# The order of the outline

The outline of a text has its named functions. The walk adds a function before those inside it,
and otherwise goes from left to right, but for assignments: a value is walked before the
targets that come after its own. So the outline is in the order of the text until a function in
a value meets one in a later target (`Node.isCrossed`), and then it is not
(`outline_ordered_iff`).
-/

namespace LuaSymbols

namespace Trace

/-- The outline that a trace makes. -/
def outline (t : Trace) : List OutlineSymbol := t.bindings.outline

@[simp]
theorem outline_nil : outline [] = [] := rfl

@[simp]
theorem outline_append (t t₂ : Trace) : outline (t ++ t₂) = t.outline ++ outline t₂ :=
  List.filterMap_append

theorem outline_flatMap {α : Type} (l : List α) (f : α → Trace) :
    outline (l.flatMap f) = l.flatMap fun a => outline (f a) :=
  List.filterMap_flatMap

theorem outline_elim {α : Type} (o : Option α) (f : α → Trace) :
    outline (o.elim [] f) = o.toList.flatMap fun a => outline (f a) := by
  cases o <;> simp

theorem outline_eq_nil {t : Trace} (h : ∀ e ∈ t, ∀ s, e ≠ .outline s) : t.outline = [] := by
  refine List.filterMap_eq_nil_iff.2 fun e he => ?_
  cases e with
  | outline s => exact absurd rfl (h _ he s)
  | _ => rfl

end Trace

namespace Node

/-- Label and base of a function that has a name. -/
def functionTarget? (n : Node) : Option (String × Option String) :=
  if n.kind.isFunction then ((n.child? .name).bind target?).filter (·.1 ≠ "") else none

def isNamedFunction (n : Node) : Bool := n.functionTarget?.isSome

/-- There is a named function in a tree. -/
def hasFunction (n : Node) : Bool := n.nodes.any isNamedFunction

/-- Some value and a later target both have a named function in them. -/
def crossing : List Node → List Node → Bool
  | _ :: targets, v :: values => v.hasFunction && targets.any hasFunction || crossing targets values
  | _, _ => false

/-- An assignment with a named function in a value and one in a later target. -/
def isCrossed (n : Node) : Bool :=
  n.kind = .assignmentStatement && crossing n.assignmentParts.1 n.assignmentParts.2

/-! ## Where named functions are -/

theorem exists_of_isNamedFunction {n : Node} (h : n.isNamedFunction = true) :
    n.kind.isFunction = true ∧ ∃ name, n.child? .name = some name ∧ name.target?.isSome = true := by
  unfold isNamedFunction functionTarget? at h
  split at h
  · next hkind =>
    obtain ⟨target, hfilter⟩ := Option.isSome_iff_exists.1 h
    have hbind := (Option.filter_eq_some_iff.1 hfilter).1
    obtain ⟨name, hname, htarget⟩ := Option.bind_eq_some_iff.1 hbind
    exact ⟨hkind, name, hname, by simp [htarget]⟩
  · cases h

/-- What has a name for an assignment is a name or has one for its tail. -/
theorem exists_of_target? {n : Node} (hs : n.Shaped) (h : n.target?.isSome = true) :
    n.kind = .identifier ∨
      n.kind.isMember = true ∧ ∃ tail ∈ n.children, tail.kind = .identifier := by
  unfold target? at h
  split at h
  · next hkind => exact .inl hkind
  · split at h
    · next hmember =>
      obtain ⟨table, tail, -, htail, hname, -⟩ := hs.formed.memberParts hmember
      have hmem : tail ∈ n.childrenAt .field ++ n.childrenAt .method := by simp [htail]
      refine .inr ⟨hmember, tail, ?_, hname⟩
      rcases List.mem_append.1 hmem with hmem | hmem
      · exact mem_of_childrenAt hmem
      · exact mem_of_childrenAt hmem
    · cases h

theorem isPart_of_target? {n : Node} (hs : n.Shaped) (h : n.target?.isSome = true) :
    n.isPart = true := by
  have hkinds := exists_of_target? hs h
  have hnamed : n.named = true := by
    by_contra hnamed
    obtain ⟨hleaf, hname⟩ := hs.formed.token (by simpa using hnamed)
    rcases hkinds with hkind | ⟨-, tail, htail, -⟩
    · exact hname (by simp [isIdentifier, hkind])
    · rw [List.isEmpty_iff.1 hleaf] at htail
      cases htail
  have hcomment : n.kind ≠ .comment := by
    intro hkind
    rcases hkinds with h | ⟨h, -⟩ <;> simp [hkind, Kind.isMember] at h
  simp [isPart, hnamed, hcomment]

theorem noted_isNamedFunction : Noted isNamedFunction where
  names := by
    intro n hs h hnone
    obtain ⟨hkind, name, hname, htarget⟩ := exists_of_isNamedFunction h
    have haside : n.kind.isAside = false := by
      cases hk : n.kind <;> simp_all [Kind.isFunction, Kind.isAside]
    have hchild := mem_of_child? hname
    obtain ⟨hother, hnames⟩ := child_names_eq_nil haside hnone hchild
    rcases exists_of_target? (hs.child hchild) htarget with hidentifier | ⟨hmember, tail, htail, hk⟩
    · exact hother hidentifier
    · exact (child_names_eq_nil (kind_of_isMember hmember).2 hnames htail).1 hk
  kind := by
    intro n h
    have hkind := (exists_of_isNamedFunction h).1
    cases hk : n.kind <;> simp_all [Kind.isFunction, Kind.isAuxiliary]
  target := by
    intro n _ h hkind
    have hfunction := (exists_of_isNamedFunction h).1
    rw [hkind] at hfunction
    cases hfunction

theorem hasFunction_iff {n : Node} :
    n.hasFunction = true ↔ ∃ f ∈ n.nodes, f.isNamedFunction = true :=
  List.any_eq_true

theorem sites_eq_nil_iff {n : Node} :
    n.sites isNamedFunction = [] ↔ n.hasFunction = false := by
  simp [sites, hasFunction]

/-- In a crossed assignment the walk goes from a function in a value to one in a later
target. -/
theorem exists_of_crossing {targets values : List Node} (h : crossing targets values = true) :
    ∃ v t, v.hasFunction = true ∧ t.hasFunction = true ∧ v ∈ values ∧ t ∈ targets ∧
      [v, t].Sublist (inTurn targets values) := by
  induction targets, values using inTurn.induct with
  | case1 values => simp [crossing] at h
  | case2 t targets ih => simp [crossing] at h
  | case3 t targets v values ih =>
    simp only [crossing, Bool.or_eq_true, Bool.and_eq_true, List.any_eq_true] at h
    rcases h with ⟨hv, t', ht', hfunction⟩ | h
    · refine ⟨v, t', hv, hfunction, List.mem_cons_self, List.mem_cons_of_mem t ht', ?_⟩
      rw [inTurn]
      refine .cons t (.cons_cons v (List.singleton_sublist.2 ?_))
      exact mem_inTurn.2 (List.mem_append_left values ht')
    · obtain ⟨v', t', hv', ht', hvalue, htarget, hsublist⟩ := ih h
      refine ⟨v', t', hv', ht', List.mem_cons_of_mem v hvalue, List.mem_cons_of_mem t htarget, ?_⟩
      rw [inTurn]
      exact .cons t (.cons v hsublist)

theorem noted_isCrossed : Noted isCrossed where
  names := by
    intro n hs h hnone
    simp only [isCrossed, Bool.and_eq_true] at h
    obtain ⟨v, -, hv, -, hvalue, -⟩ := exists_of_crossing h.2
    obtain ⟨f, hf, hnamed⟩ := hasFunction_iff.1 hv
    have hbelow := below_of_assignmentParts (.inr hvalue)
    have hmem : f ∈ n.sites isNamedFunction :=
      List.mem_filter.2 ⟨hbelow.nodes_subset hf, hnamed⟩
    rw [noted_isNamedFunction.sites_of_no_names hs hnone] at hmem
    cases hmem
  kind := by
    intro n h
    simp only [isCrossed, Bool.and_eq_true, decide_eq_true_eq] at h
    rw [h.1]
    rfl
  target := by
    intro n hs h _
    simp only [isCrossed, Bool.and_eq_true] at h
    obtain ⟨-, t, -, ht, -, htarget, -⟩ := exists_of_crossing h.2
    refine ⟨t, htarget, ?_⟩
    by_contra hname
    have hshaped := hs.below (below_of_assignmentParts (.inl htarget))
    have hnone := noted_isNamedFunction.sites_of_identifier hshaped (by simpa using hname)
    simp [sites_eq_nil_iff.1 hnone] at ht

/-- Whatever is in a target ends before what is in a value starts. -/
theorem LaidOut.target_le_value {n t v a b : Node} (hl : n.LaidOut) (ho : n.Ordered)
    (h : n.kind = .assignmentStatement) (ht : t ∈ n.assignmentParts.1)
    (hv : v ∈ n.assignmentParts.2) (ha : a ∈ t.nodes) (hb : b ∈ v.nodes) :
    a.span.stop ≤ b.span.start := by
  obtain ⟨targets, values, -, -, hparts, hassignment⟩ := ho.assignmentLists h
  rw [hassignment] at ht hv
  have htargets := mem_of_parts (List.mem_filter.1 ht).1
  have hpair := hl.beside.sublist (List.filter_sublist (p := isPart))
  rw [show n.children.filter isPart = [targets, values] from hparts, List.pairwise_pair] at hpair
  exact hpair a (mem_nodes.2 (.inr ⟨t, htargets, ha⟩)) b
    (mem_nodes.2 (.inr ⟨v, mem_of_parts hv, hb⟩))

/-! ## The order of a step -/

theorem inTurn_perm (targets values : List Node) :
    (inTurn targets values).Perm (targets ++ values) := by
  induction targets, values using inTurn.induct with
  | case1 values => exact .refl _
  | case2 t targets ih => exact .cons t ih
  | case3 t targets v values ih =>
    rw [inTurn, List.cons_append]
    exact .cons t ((ih.cons v).trans List.perm_middle.symm)

theorem order_perm_next (n : Node) : n.order.Perm n.next := by
  unfold order
  split
  · next hkind => simpa [next, hkind] using inTurn_perm _ _
  · next hkind => simpa [next, hkind] using inTurn_perm _ _
  · exact .refl _

/-- Where targets and values are not crossed, it is the same to walk them in turn or targets
first. -/
theorem flatMap_inTurn {α : Type} {f : Node → List α}
    (hf : ∀ c, c.hasFunction = false → f c = []) {targets values : List Node}
    (h : crossing targets values = false) :
    (inTurn targets values).flatMap f = (targets ++ values).flatMap f := by
  induction targets, values using inTurn.induct with
  | case1 values => rfl
  | case2 t targets ih =>
    have hrest : crossing targets [] = false := by cases targets <;> rfl
    rw [inTurn, List.flatMap_cons, ih hrest, List.cons_append, List.flatMap_cons]
  | case3 t targets v values ih =>
    simp only [crossing, Bool.or_eq_false_iff, Bool.and_eq_false_iff] at h
    obtain ⟨hfirst, hrest⟩ := h
    simp only [inTurn, List.flatMap_cons, List.cons_append, ih hrest, List.flatMap_append]
    -- the value or all later targets have nothing to add, so they may change places
    rcases hfirst with hv | htargets
    · simp [hf v hv]
    · have hnone : targets.flatMap f = [] := by
        refine List.flatMap_eq_nil_iff.2 fun t' ht' => hf t' ?_
        simpa using List.any_eq_false.1 htargets t' ht'
      simp [hnone]

theorem crossing_eq_false {targets values : List Node}
    (h : ∀ t ∈ targets, t.hasFunction = false) : crossing targets values = false := by
  by_contra hcrossing
  obtain ⟨-, t, -, ht, -, hmem, -⟩ := exists_of_crossing (by simpa using hcrossing)
  simp [h t hmem] at ht

theorem flatMap_order {α : Type} {f : Node → List α} (hf : ∀ c, c.hasFunction = false → f c = [])
    {n : Node} (hs : n.Shaped) (h : n.isCrossed = false) :
    n.order.flatMap f = n.next.flatMap f := by
  unfold order
  split <;> rename_i hkind
  · have hnames : ∀ t ∈ n.declarationParts.1, t.hasFunction = false := by
      intro t ht
      have hshaped := hs.below (below_of_declarationParts (.inl ht))
      exact sites_eq_nil_iff.1 (noted_isNamedFunction.sites_of_identifier hshaped
        (isIdentifier_of_declarationParts ht))
    rw [flatMap_inTurn hf (crossing_eq_false hnames), next, hkind]
  · rw [flatMap_inTurn hf (by simpa [isCrossed, hkind] using h), next, hkind]
  · rfl

end Node

namespace Walk

variable (w : Walk)

/-- The entry of a named function. -/
def symbol? (n : Node) : Option OutlineSymbol :=
  n.functionTarget?.map fun (label, base) => ⟨label, .ofBase base, w.range n, w.uri⟩

/-- The entries of the named functions in a tree, in the order of the text. -/
def symbols (n : Node) : List OutlineSymbol := n.nodes.filterMap w.symbol?

/-! ## One step -/

theorem symbol?_eq_none {n : Node} (h : n.kind.isFunction = false) : w.symbol? n = none := by
  rw [symbol?, Node.functionTarget?, if_neg (by simp [h])]
  rfl

theorem outline_functionEvents {n : Node} (h : n.kind.isFunction = true) :
    (n.child? .name).elim [] (fun name => Trace.outline (w.functionEvents n name)) =
      (w.symbol? n).toList := by
  rw [symbol?, Node.functionTarget?, if_pos h]
  cases n.child? .name with
  | none => rfl
  | some name =>
    simp only [Option.elim_some, Option.bind_some, functionEvents]
    cases name.target? with
    | none => rfl
    | some target =>
      obtain ⟨label, base⟩ := target
      by_cases hlabel : label = ""
      · simp [hlabel, Option.filter]
      · simp [hlabel, Option.filter, Trace.outline, Trace.bindings]

theorem outline_tableEvents (owner : String) (n : Node) :
    Trace.outline (tableEvents w owner n) = [] := by
  refine Trace.outline_eq_nil fun e he s hs => ?_
  obtain ⟨a, ha, -⟩ := w.assignment_of_tableEvents owner n he
  rw [hs] at ha
  cases ha

theorem outline_targetEvents (n : Node) : Trace.outline (w.targetEvents n) = [] := by
  unfold targetEvents
  split <;> rfl

theorem outline_locals (ns : List Node) :
    Trace.outline (ns.map (.localName <| w.declaration ·)) = [] := by
  refine Trace.outline_eq_nil fun e he s hs => ?_
  obtain ⟨n, -, hn⟩ := List.mem_map.1 he
  rw [hs] at hn
  cases hn

section
variable (visit : Node → List Event)

theorem outline_pairEvents {owner? : Node → Option String} {before : Node → List Event}
    (hbefore : ∀ n, Trace.outline (before n) = []) (targets values : List Node) :
    Trace.outline (w.pairEvents visit owner? before targets values) =
      (Node.inTurn targets values).flatMap fun c => Trace.outline (visit c) := by
  have hfields (t v : Node) :
      Trace.outline ((owner? t).elim [] (tableEvents w · v)) = [] := by
    cases owner? t with
    | none => rfl
    | some owner => exact w.outline_tableEvents owner v
  induction targets, values using Node.inTurn.induct with
  | case1 values => rw [pairEvents, Trace.outline_flatMap, Node.inTurn]
  | case2 t targets ih =>
    simp only [pairEvents, Trace.outline_append, Node.inTurn, List.flatMap_cons, ih, hbefore,
      List.nil_append]
  | case3 t targets v values ih =>
    simp only [pairEvents, Trace.outline_append, Node.inTurn, List.flatMap_cons, ih, hfields,
      hbefore, List.nil_append, List.append_assoc]

theorem outline_parameterEvents (n : Node) :
    Trace.outline (w.parameterEvents visit n) = Trace.outline (visit n) := by
  unfold parameterEvents
  split <;> rfl

theorem outline_includeEvents (callee arguments : Option Node) :
    Trace.outline (w.includeEvents callee arguments) = [] := by
  unfold includeEvents
  split
  · split <;> rfl
  · rfl

theorem outline_function {n : Node} (h : n.kind.isFunction = true) :
    Trace.outline ((n.child? .name).elim [] (fun name => w.functionEvents n name ++ visit name) ++
      (n.child? .parameters).elim [] (fun ps => ps.parts.flatMap (w.parameterEvents visit)) ++
      (n.childrenAt .body).flatMap visit) =
      (w.symbol? n).toList ++ ((n.child? .name).toList ++
        (n.child? .parameters).elim [] Node.parts ++ n.childrenAt .body).flatMap
          fun c => Trace.outline (visit c) := by
  rw [← w.outline_functionEvents h]
  cases n.child? .name <;> cases n.child? .parameters <;>
    simp [Trace.outline_flatMap, outline_parameterEvents, List.append_assoc]

end

/-- The outline that one step of the walk makes: the function that the node is, and what the
nodes that it goes on to make, in its order. -/
theorem outline_events (depth : Nat) (n : Node) :
    Trace.outline (w.events (depth + 1) n) = (w.symbol? n).toList ++
      n.order.flatMap fun c => Trace.outline (w.events depth c) := by
  have hplain (h : n.kind.isFunction = false) : (w.symbol? n).toList = [] := by
    rw [w.symbol?_eq_none h]
    rfl
  conv_lhs => unfold events
  unfold Node.order Node.next
  split <;> rename_i hkind <;> try simp only [hkind]
  · rw [hplain (by rw [hkind]; rfl)]
    rfl
  · rw [hplain (by rw [hkind]; rfl)]
    cases n.memberParts? <;> simp [memberEvents, Trace.outline, Trace.bindings]
  · rw [hplain (by rw [hkind]; rfl)]
    cases n.memberParts? <;> simp [memberEvents, Trace.outline, Trace.bindings]
  · rw [Trace.outline_append, outline_locals, hplain (by rw [hkind]; rfl)]
    exact w.outline_pairEvents _ (fun _ => rfl) _ _
  · rw [hplain (by rw [hkind]; rfl)]
    exact w.outline_pairEvents _ w.outline_targetEvents _ _
  · exact w.outline_function _ (by rw [hkind]; rfl)
  · exact w.outline_function _ (by rw [hkind]; rfl)
  · rw [hplain (by rw [hkind]; rfl)]
    simp only [Trace.outline_append, outline_includeEvents, Trace.outline_elim,
      List.nil_append, List.flatMap_append]
  · rw [Trace.outline_append, outline_locals, hplain (by rw [hkind]; rfl), Trace.outline_flatMap]
  · rw [Trace.outline_append, outline_locals, hplain (by rw [hkind]; rfl), Trace.outline_flatMap]
  · have hnone : n.kind.isFunction = false := by
      cases hk : n.kind <;> simp_all [Kind.isFunction]
    rw [hplain hnone]
    split <;> rw [Trace.outline_flatMap] <;> rfl

/-! ## The whole walk -/

theorem symbols_eq_sites (n : Node) :
    w.symbols n = (n.sites Node.isNamedFunction).filterMap w.symbol? := by
  rw [symbols, Node.sites, List.filterMap_filter]
  congr 1
  funext m
  cases h : m.functionTarget? <;> simp [symbol?, Node.isNamedFunction, h]

theorem labels_symbols (n : Node) :
    (w.symbols n).map (·.label) = (n.nodes.filterMap Node.functionTarget?).map Prod.fst := by
  rw [symbols, List.map_filterMap, List.map_filterMap]
  refine List.filterMap_congr fun m _ => ?_
  rw [symbol?, Option.map_map]
  rfl

theorem symbols_eq_nil {n : Node} (h : n.hasFunction = false) : w.symbols n = [] := by
  rw [symbols_eq_sites, Node.sites_eq_nil_iff.2 h]
  rfl

/-- The entries of a tree are that of its root and those of the nodes that the walk goes on
to. -/
theorem symbols_eq {n : Node} (hs : n.Shaped) (ha : n.Arranged) :
    w.symbols n = (w.symbol? n).toList ++ n.next.flatMap w.symbols := by
  have hroot : ([n].filter Node.isNamedFunction).filterMap w.symbol? = (w.symbol? n).toList := by
    cases h : n.functionTarget? <;> simp [symbol?, Node.isNamedFunction, h]
  rw [symbols_eq_sites, Node.noted_isNamedFunction.sites_eq hs ha, List.filterMap_append, hroot,
    List.filterMap_flatMap]
  exact congrArg _ (List.flatMap_congr fun c _ => (w.symbols_eq_sites c).symm)

theorem tooDeep_notMem_next {depth : Nat} {n c : Node}
    (h : Event.tooDeep ∉ w.events (depth + 1) n) (hc : c ∈ n.next) :
    Event.tooDeep ∉ w.events depth c := by
  intro hdeep
  refine h ((w.events_perm depth n).mem_iff.2 (List.mem_append_right _ ?_))
  exact List.mem_flatMap.2 ⟨c, hc, hdeep⟩

/-- The outline has every named function once. -/
theorem outline_perm {depth : Nat} {n : Node} (hs : n.Shaped) (ha : n.Arranged)
    (h : Event.tooDeep ∉ w.events depth n) :
    (Trace.outline (w.events depth n)).Perm (w.symbols n) := by
  induction depth generalizing n with
  | zero => simp [events] at h
  | succ depth ih =>
    rw [outline_events, w.symbols_eq hs ha]
    refine List.Perm.append_left _ ?_
    refine (n.order_perm_next.flatMap_right _).trans (List.Perm.flatMap_left _ fun c hc => ?_)
    have hbelow := Node.below_of_next hc
    exact ih (hs.below hbelow) (ha.below hbelow) (w.tooDeep_notMem_next h hc)

/-- Where no assignment is crossed, the outline is in the order of the text. -/
theorem outline_eq_symbols {depth : Nat} {n : Node} (hs : n.Shaped) (ha : n.Arranged)
    (h : Event.tooDeep ∉ w.events depth n) (hcrossed : ∀ s ∈ n.nodes, s.isCrossed = false) :
    Trace.outline (w.events depth n) = w.symbols n := by
  induction depth generalizing n with
  | zero => simp [events] at h
  | succ depth ih =>
    have hnext : ∀ c ∈ n.order, Trace.outline (w.events depth c) = w.symbols c := by
      intro c hc
      have hc := Node.mem_next_of_mem_order hc
      have hbelow := Node.below_of_next hc
      exact ih (hs.below hbelow) (ha.below hbelow) (w.tooDeep_notMem_next h hc)
        fun s hs => hcrossed s (hbelow.nodes_subset hs)
    rw [outline_events, w.symbols_eq hs ha, List.flatMap_congr hnext,
      Node.flatMap_order (fun c => w.symbols_eq_nil) hs (hcrossed n n.self_mem_nodes)]

/-- A named function in a tree has an entry in the outline. -/
theorem symbol_mem_outline {depth : Nat} {n f : Node} (hs : n.Shaped) (ha : n.Arranged)
    (h : Event.tooDeep ∉ w.events depth n) (hf : f ∈ n.nodes) (hnamed : f.isNamedFunction = true) :
    ∃ a, w.symbol? f = some a ∧ a ∈ Trace.outline (w.events depth n) := by
  obtain ⟨target, htarget⟩ := Option.isSome_iff_exists.1 hnamed
  have hsymbol : (w.symbol? f).isSome = true := by simp [symbol?, htarget]
  obtain ⟨a, ha'⟩ := Option.isSome_iff_exists.1 hsymbol
  exact ⟨a, ha', (w.outline_perm hs ha h).mem_iff.2 (List.mem_filterMap.2 ⟨f, hf, ha'⟩)⟩

theorem outline_sublist (depth : Nat) {n : Node} {ns : List Node} (h : ns.Sublist n.order) :
    (ns.flatMap fun c => Trace.outline (w.events depth c)).Sublist
      (Trace.outline (w.events (depth + 1) n)) := by
  rw [outline_events]
  exact (h.flatMap _).trans (List.sublist_append_right _ _)

/-- In an outline, the entry of a function comes before that of one that ends before the first
starts. -/
def Inverts (n : Node) (outline : List OutlineSymbol) : Prop :=
  ∃ f ∈ n.nodes, ∃ g ∈ n.nodes, g.isNamedFunction = true ∧ g.span.stop ≤ f.span.start ∧
    ∃ a b, w.symbol? f = some a ∧ w.symbol? g = some b ∧ [a, b].Sublist outline

variable {w}

theorem Inverts.mono {n m : Node} {outline outline₂ : List OutlineSymbol} (hm : n.Below m)
    (h : w.Inverts m outline) (houtline : outline.Sublist outline₂) : w.Inverts n outline₂ := by
  have hsubset := hm.nodes_subset
  obtain ⟨f, hf, g, hg, hnamed, hle, a, b, hfa, hgb, hsublist⟩ := h
  exact ⟨f, hsubset hf, g, hsubset hg, hnamed, hle, a, b, hfa, hgb, hsublist.trans houtline⟩

variable (w)

/-- A crossed assignment inverts what it adds to the outline. -/
theorem inverts_of_isCrossed {depth : Nat} {n : Node} (hs : n.Shaped) (ha : n.Arranged)
    (hl : n.LaidOut) (h : Event.tooDeep ∉ w.events (depth + 1) n) (hcrossed : n.isCrossed = true) :
    w.Inverts n (Trace.outline (w.events (depth + 1) n)) := by
  simp only [Node.isCrossed, Bool.and_eq_true, decide_eq_true_eq] at hcrossed
  obtain ⟨hkind, hcrossing⟩ := hcrossed
  obtain ⟨v, t, hv, ht, hvalue, htarget, hsublist⟩ := Node.exists_of_crossing hcrossing
  have hentry (c : Node) (hc : c ∈ n.assignmentParts.1 ∨ c ∈ n.assignmentParts.2)
      (hfunction : c.hasFunction = true) :
      ∃ f ∈ c.nodes, f ∈ n.nodes ∧ f.isNamedFunction = true ∧
        ∃ a, w.symbol? f = some a ∧ a ∈ Trace.outline (w.events depth c) := by
    obtain ⟨f, hf, hnamed⟩ := Node.hasFunction_iff.1 hfunction
    have hbelow := Node.below_of_assignmentParts hc
    have hnext : c ∈ n.next := by
      rw [Node.next, hkind]
      exact List.mem_append.2 hc
    exact ⟨f, hf, hbelow.nodes_subset hf, hnamed,
      w.symbol_mem_outline (hs.below hbelow) (ha.below hbelow) (w.tooDeep_notMem_next h hnext)
        hf hnamed⟩
  obtain ⟨f, hf, hfn, -, a, hfa, hamem⟩ := hentry v (.inr hvalue) hv
  obtain ⟨g, hg, hgn, hnamed, b, hgb, hbmem⟩ := hentry t (.inl htarget) ht
  refine ⟨f, hfn, g, hgn, hnamed, hl.target_le_value ha.ordered hkind htarget hvalue hg hf,
    a, b, hfa, hgb, ?_⟩
  have horder : [v, t].Sublist n.order := by
    rw [Node.order, hkind]
    exact hsublist
  refine List.Sublist.trans ?_ (w.outline_sublist depth horder)
  rw [List.flatMap_cons, List.flatMap_cons, List.flatMap_nil, List.append_nil]
  exact (List.singleton_sublist.2 hamem).append (List.singleton_sublist.2 hbmem)

/-- A crossed assignment anywhere in a tree inverts its outline. -/
theorem inverts_outline {depth : Nat} {n s : Node} (hs : n.Shaped) (ha : n.Arranged)
    (hl : n.LaidOut) (h : Event.tooDeep ∉ w.events depth n) (hmem : s ∈ n.nodes)
    (hcrossed : s.isCrossed = true) : w.Inverts n (Trace.outline (w.events depth n)) := by
  induction depth generalizing n with
  | zero => simp [events] at h
  | succ depth ih =>
    have hsite : s ∈ n.sites Node.isCrossed := List.mem_filter.2 ⟨hmem, hcrossed⟩
    rw [Node.noted_isCrossed.sites_eq hs ha, List.mem_append, List.mem_flatMap] at hsite
    rcases hsite with hroot | ⟨c, hc, hsite⟩
    · obtain rfl := List.mem_singleton.1 (List.mem_filter.1 hroot).1
      exact w.inverts_of_isCrossed hs ha hl h hcrossed
    · have hbelow := Node.below_of_next hc
      have horder : c ∈ n.order := n.order_perm_next.mem_iff.2 hc
      refine Inverts.mono hbelow ?_ (w.outline_sublist depth (List.singleton_sublist.2 horder))
      rw [List.flatMap_cons, List.flatMap_nil, List.append_nil]
      exact ih (hs.below hbelow) (ha.below hbelow) (hl.of_mem hbelow.mem)
        (w.tooDeep_notMem_next h hc) (List.mem_filter.1 hsite).1

/-! ## Places of functions -/

theorem start_of_symbol? {n : Node} {a : OutlineSymbol} (h : w.symbol? n = some a) :
    n.isNamedFunction = true ∧ a.range.start = (w.range n).start := by
  obtain ⟨target, htarget, rfl⟩ := Option.map_eq_some_iff.1 h
  exact ⟨by simp [Node.isNamedFunction, htarget], rfl⟩

theorem range_le {a b : Node} (h : a.span.stop ≤ b.span.start) :
    (w.range a).stop ≤ (w.range b).start :=
  w.source.position_mono h

/-- Every named function of a tree starts before its parts. -/
def LeadsIn (n : Node) : Prop := ∀ f ∈ n.nodes, f.isNamedFunction = true →
  ∀ c ∈ f.parts, (w.range f).start < (w.range c).start

instance (n : Node) : Decidable (w.LeadsIn n) :=
  inferInstanceAs (Decidable (∀ f ∈ n.nodes, f.isNamedFunction = true →
    ∀ c ∈ f.parts, (w.range f).start < (w.range c).start))

variable {w}

theorem LeadsIn.start_lt_stop {n f : Node} (h : w.LeadsIn n) (hs : n.Shaped) (hl : n.LaidOut)
    (hf : f ∈ n.nodes) (hnamed : f.isNamedFunction = true) :
    (w.range f).start < (w.range f).stop := by
  obtain ⟨-, name, hname, htarget⟩ := Node.exists_of_isNamedFunction hnamed
  have hchild := Node.mem_of_child? hname
  have hpart := Node.isPart_of_target? ((hs.of_mem hf).child hchild) htarget
  have hlaid := hl.of_mem hf
  calc (w.range f).start
      < (w.range name).start := h f hf hnamed name (List.mem_filter.2 ⟨hchild, hpart⟩)
    _ ≤ (w.range name).stop := w.source.position_mono (hlaid.child hchild).laid.forward
    _ ≤ (w.range f).stop := w.source.position_mono (hlaid.laid.within name hchild).2

/-- Named functions are listed in the order in which they start. -/
theorem LeadsIn.pairwise_start {n : Node} (h : w.LeadsIn n) (hs : n.Shaped) (hl : n.LaidOut) :
    n.nodes.Pairwise fun a b => a.isNamedFunction = true → b.isNamedFunction = true →
      (w.range a).start < (w.range b).start := by
  refine Node.pairwise_nodes (fun a ha b hb hanamed hbnamed => ?_) fun m hm => ?_
  · obtain ⟨c, hc, hbc⟩ := hb
    -- the function keyword may start where the function does, but no function is in it
    have hpart : c.isPart = true := by
      by_contra hpart
      have hnone := Node.noted_isNamedFunction.sites_of_not_part ((hs.of_mem ha).child hc)
        (by simpa using hpart)
      exact List.filter_eq_nil_iff.1 hnone b hbc hbnamed
    calc (w.range a).start
        < (w.range c).start := h a ha hanamed c (List.mem_filter.2 ⟨hc, hpart⟩)
      _ ≤ (w.range b).start :=
        w.source.position_mono (((hl.of_mem ha).child hc).within hbc).1
  · refine (hl.of_mem hm).beside.imp_of_mem fun {c d} hc _ hle a ha b hb hnamed _ => ?_
    have hmem : a ∈ n.nodes := (Node.nodes_sublist hm).subset (Node.Below.mem ⟨c, hc, ha⟩)
    exact (h.start_lt_stop hs hl hmem hnamed).trans_le (w.range_le (hle a ha b hb))

theorem LeadsIn.pairwise_symbols {n : Node} (h : w.LeadsIn n) (hs : n.Shaped) (hl : n.LaidOut) :
    (w.symbols n).Pairwise fun a b => a.range.start < b.range.start := by
  refine List.pairwise_filterMap.2 ((h.pairwise_start hs hl).imp ?_)
  intro f g hlt a hfa b hgb
  obtain ⟨hf, hfstart⟩ := w.start_of_symbol? hfa
  obtain ⟨hg, hgstart⟩ := w.start_of_symbol? hgb
  rw [hfstart, hgstart]
  exact hlt hf hg

/-- An outline that is inverted somewhere is not in order. -/
theorem LeadsIn.not_pairwise {n : Node} (h : w.LeadsIn n) (hs : n.Shaped) (hl : n.LaidOut)
    {outline : List OutlineSymbol} (hinverts : w.Inverts n outline) :
    ¬ outline.Pairwise fun a b => a.range.start ≤ b.range.start := by
  intro hordered
  obtain ⟨f, -, g, hg, hnamed, hle, a, b, hfa, hgb, hsublist⟩ := hinverts
  have hfg := List.pairwise_pair.1 (hordered.sublist hsublist)
  rw [(w.start_of_symbol? hfa).2, (w.start_of_symbol? hgb).2] at hfg
  have hgf : (w.range g).start < (w.range f).start :=
    (h.start_lt_stop hs hl hg hnamed).trans_le (w.range_le hle)
  exact not_le.2 hgf hfg

variable (w)

theorem pairwise_symbols {n : Node} (hl : n.LaidOut) :
    (w.symbols n).Pairwise fun a b => a.range.start ≤ b.range.start := by
  refine List.pairwise_filterMap.2 (hl.pairwise_start.imp ?_)
  intro f g hle a hfa b hgb
  rw [(w.start_of_symbol? hfa).2, (w.start_of_symbol? hgb).2]
  exact w.source.position_mono hle

/-- **When the outline is in the order of the text.** Let a tree have the shape of the grammar,
its parts in order, and nodes within their parents and behind their earlier siblings. At any
depth that the walk may go to unless it has to go deeper, and there is always one, the outline
has an entry for every named function, and no other. It is in the order of the text, and so
of where the functions start, unless an assignment of the tree has a named function in a value
and one in a later target. If each named function starts before its parts, the entries start
strictly one after the other if and only if there is no such assignment. -/
theorem outline_ordered_iff {root : Node} (hs : root.Shaped) (ha : root.Arranged)
    (hl : root.LaidOut) :
    Trace.isComplete (w.events root.nodes.length root) = true ∧
    ∀ depth, Trace.isComplete (w.events depth root) = true →
      let outline := (Trace.bindings (w.events depth root)).outline
      outline.Perm (w.symbols root) ∧
      ((∀ s ∈ root.nodes, s.isCrossed = false) →
        outline = w.symbols root ∧ outline.Pairwise fun a b => a.range.start ≤ b.range.start) ∧
      (w.LeadsIn root →
        (outline.Pairwise (fun a b => a.range.start < b.range.start) ↔
          ∀ s ∈ root.nodes, s.isCrossed = false)) := by
  refine ⟨by simp [Trace.isComplete, w.tooDeep_notMem_events le_rfl], fun depth hcomplete => ?_⟩
  have hdeep : Event.tooDeep ∉ w.events depth root := by simpa [Trace.isComplete] using hcomplete
  have heq (h : ∀ s ∈ root.nodes, s.isCrossed = false) :
      (Trace.bindings (w.events depth root)).outline = w.symbols root :=
    w.outline_eq_symbols hs ha hdeep h
  refine ⟨w.outline_perm hs ha hdeep, fun h => ⟨heq h, ?_⟩, fun hleads => ⟨fun hstrict => ?_, ?_⟩⟩
  · rw [heq h]
    exact w.pairwise_symbols hl
  · by_contra hcrossed
    push Not at hcrossed
    obtain ⟨s, hmem, hcrossed⟩ := hcrossed
    have hinverts := w.inverts_outline hs ha hl hdeep hmem (by simpa using hcrossed)
    exact hleads.not_pairwise hs hl hinverts (hstrict.imp le_of_lt)
  · intro h
    rw [heq h]
    exact hleads.pairwise_symbols hs hl

/-- A function in a function, and one in a value of an assignment. -/
def nested : String :=
  "function a.f() local function g() end end x, y = function() function h() end end, 1"

theorem parse?_nested : ∃ root, Lua.parse? nested = some root ∧ root.Shaped ∧ root.Arranged ∧
    root.LaidOut ∧ LeadsIn ⟨"", .ofText nested, []⟩ root ∧
    (∀ s ∈ root.nodes, s.isCrossed = false) ∧ root.nodes.length ≤ depthLimit ∧
    (root.nodes.filterMap Node.functionTarget?).map Prod.fst = ["f", "g", "h"] := by
  have hparse : (Lua.parse? nested).any (fun root => decide (root.Shaped ∧ root.Arranged ∧
      root.LaidOut ∧ LeadsIn ⟨"", .ofText nested, []⟩ root ∧
      (∀ s ∈ root.nodes, s.isCrossed = false) ∧ root.nodes.length ≤ depthLimit ∧
      (root.nodes.filterMap Node.functionTarget?).map Prod.fst = ["f", "g", "h"])) = true := by
    decide +kernel
  obtain ⟨root, hroot, hfacts⟩ := (Option.any_eq_true _ _).1 hparse
  exact ⟨root, hroot, of_decide_eq_true hfacts⟩

theorem outline_ordered_iff_nested : ∃ root, Lua.parse? nested = some root ∧
    ∀ uri keywords,
      let outline := (Walk.trace ⟨uri, .ofText nested, keywords⟩ root).bindings.outline
      outline.map (·.label) = ["f", "g", "h"] ∧
        outline.Pairwise fun a b => a.range.start < b.range.start := by
  obtain ⟨root, hroot, hs, ha, hl, hleads, hcrossed, hlength, hlabels⟩ := parse?_nested
  refine ⟨root, hroot, fun uri keywords => ?_⟩
  let w : Walk := ⟨uri, .ofText nested, keywords⟩
  have hcomplete : Trace.isComplete (w.events depthLimit root) = true := by
    simp [Trace.isComplete, w.tooDeep_notMem_events hlength]
  obtain ⟨-, hordered, hiff⟩ := (w.outline_ordered_iff hs ha hl).2 depthLimit hcomplete
  refine ⟨?_, (hiff hleads).2 hcrossed⟩
  rw [← hlabels, Walk.trace, (hordered hcrossed).1, labels_symbols]

/-- A function in a value, and one in the target behind that of the value. -/
def crossed : String :=
  "t[1], t[(function() function g() end end)()] = function() function h() end end, 2"

/-- The function in the value is added first, though the target comes before it. -/
theorem crossed_outline_inverted : ∃ root, Lua.parse? crossed = some root ∧ root.Shaped ∧
    root.Arranged ∧ root.LaidOut ∧
    let outline := (Walk.trace ⟨"", .ofText crossed, []⟩ root).bindings.outline
    outline.map (fun s => (s.label, s.range.start)) = [("h", ⟨0, 58⟩), ("g", ⟨0, 20⟩)] ∧
      ¬ outline.Pairwise fun a b => a.range.start ≤ b.range.start := by
  have hparse : (Lua.parse? crossed).any (fun root => decide (root.Shaped ∧ root.Arranged ∧
      root.LaidOut ∧
      (Walk.trace ⟨"", .ofText crossed, []⟩ root).bindings.outline.map
        (fun s => (s.label, s.range.start)) = [("h", ⟨0, 58⟩), ("g", ⟨0, 20⟩)] ∧
      ¬ (Walk.trace ⟨"", .ofText crossed, []⟩ root).bindings.outline.Pairwise
        fun a b => a.range.start ≤ b.range.start)) = true := by
    decide +kernel
  obtain ⟨root, hroot, hfacts⟩ := (Option.any_eq_true _ _).1 hparse
  exact ⟨root, hroot, of_decide_eq_true hfacts⟩

end Walk

end LuaSymbols
