import Mathlib
import LuaSymbols.Proofs.Index.Fill
import LuaSymbols.Proofs.Walk.Ownership
import LuaSymbols.Proofs.Walk.Steps

/-!
# What the walk covers

The walk reports every name of a shaped tree at its place, tails of member accesses twice,
and follows every include call once. What is `due` at a node is what the walk reports at the
node itself and what is due at the nodes that it goes on to (`due_eq`); so it is reported in
full unless the walk goes too deep (`events_cover`).
-/

namespace LuaSymbols

theorem sum_map_filter {α M : Type} [AddCommMonoid M] {l : List α} {p : α → Bool} {f : α → M}
    (h : ∀ a ∈ l, p a = false → f a = 0) : ((l.filter p).map f).sum = (l.map f).sum := by
  induction l with
  | nil => rfl
  | cons a l ih =>
    have hl := ih fun b hb => h b (List.mem_cons_of_mem a hb)
    cases hp : p a with
    | true => simp [hp, hl]
    | false => simp [hp, hl, h a List.mem_cons_self hp]

/-- The kinds that have nothing of their own to report. -/
def Kind.isPlain (k : Kind) : Bool :=
  k ≠ .identifier && k ≠ .functionCall && !k.isAside && !k.isMember

/-- Places and include calls, each as often as there are. -/
abbrev Tally := Multiset Range × Multiset (String × Bool)

/-! ## What is reported -/

/-- The place of the name that an event is. -/
def Event.place? : Event → Option Range
  | identifier o => some o.range
  | _ => none

/-- The events that tell what a name stands for. -/
def Event.declares : Event → Bool
  | localName _ | parameter _ | assignment _ | function _ | outline _ => true
  | identifier _ | includeCall _ _ | tooDeep => false

namespace Trace

def tally (t : Trace) : Tally :=
  ((t.filterMap Event.place? : List Range), (t.filterMap Event.include? : List (String × Bool)))

theorem identifiers_places (t : Trace) :
    t.bindings.identifiers.map (·.range) = t.filterMap Event.place? := by
  rw [bindings, List.map_filterMap]
  congr 1
  funext e
  cases e <;> rfl

theorem tally_append (t t₂ : Trace) : tally (t ++ t₂) = t.tally + tally t₂ := by
  simp [tally, List.filterMap_append]

theorem tally_perm {t t₂ : Trace} (h : t.Perm t₂) : t.tally = t₂.tally := by
  simp only [tally, Prod.mk.injEq, Multiset.coe_eq_coe]
  exact ⟨h.filterMap _, h.filterMap _⟩

theorem tally_flatMap {α : Type} (l : List α) (f : α → Trace) :
    tally (l.flatMap f) = (l.map fun a => tally (f a)).sum := by
  induction l with
  | nil => rfl
  | cons a l ih => rw [List.flatMap_cons, tally_append, ih, List.map_cons, List.sum_cons]

theorem tally_of_declares {t : Trace} (h : ∀ e ∈ t, e.declares = true) : t.tally = 0 := by
  induction t with
  | nil => rfl
  | cons e t ih =>
    have hrest := ih fun e' he' => h e' (List.mem_cons_of_mem e he')
    have he := h e List.mem_cons_self
    cases e with
    | identifier | includeCall | tooDeep => cases he
    | localName | parameter | assignment | function | outline => exact hrest

end Trace

namespace Walk

variable (w : Walk)

/-! ## What is due -/

/-- The places at which a name is to be reported. -/
def places : Node × Bool → List Range
  | (n, tail) => if tail then [w.range n, w.range n] else [w.range n]

/-- What a walk of a tree is to report. -/
def due (tail : Bool) (n : Node) : Tally :=
  (((n.names tail).flatMap w.places : List Range),
    (n.nodes.filterMap (Node.include? w.keywords) : List (String × Bool)))

/-- What is due at some nodes, none of which is a tail. -/
def dues (ns : List Node) : Tally := (ns.map (w.due false)).sum

@[simp]
theorem dues_nil : w.dues [] = 0 := rfl

@[simp]
theorem dues_cons (n : Node) (ns : List Node) : w.dues (n :: ns) = w.due false n + w.dues ns :=
  rfl

@[simp]
theorem dues_append (ns ns₂ : List Node) : w.dues (ns ++ ns₂) = w.dues ns + w.dues ns₂ := by
  simp [dues]

theorem dues_filter {ns : List Node} {p : Node → Bool}
    (h : ∀ n ∈ ns, p n = false → w.due false n = 0) : w.dues (ns.filter p) = w.dues ns :=
  sum_map_filter h

theorem dues_eq_zero {ns : List Node} (h : ∀ n ∈ ns, w.due false n = 0) : w.dues ns = 0 :=
  List.sum_eq_zero fun x hx => by
    obtain ⟨n, hn, rfl⟩ := List.mem_map.1 hx
    exact h n hn

/-! ### Where nothing is due -/

/-- An include call has a name for its callee. -/
theorem exists_of_include? {n : Node} {reference : String × Bool}
    (h : n.include? w.keywords = some reference) :
    n.kind = .functionCall ∧ ∃ c ∈ n.children, c.kind = .identifier := by
  unfold Node.include? at h
  split at h
  · next hkind =>
    split at h
    · next callee _ hcallee _ =>
      split at h
      · next hc =>
        exact ⟨hkind, callee, Node.mem_of_child? hcallee, by simpa [Node.isIdentifier] using hc.1⟩
      · cases h
    · cases h
  · cases h

theorem include?_of_leaf {n : Node} (h : n.children = []) : n.include? w.keywords = none := by
  by_contra hsome
  obtain ⟨reference, hinclude⟩ := Option.ne_none_iff_exists'.1 hsome
  obtain ⟨-, c, hc, -⟩ := w.exists_of_include? hinclude
  rw [h] at hc
  cases hc

/-- Where there is no name there is no include call. -/
theorem include?_of_no_names {n : Node} (hs : n.Shaped) (h : n.names false = []) :
    ∀ m ∈ n.nodes, m.include? w.keywords = none := by
  induction n using Node.induction with
  | h n ih =>
    intro m hm
    cases haside : n.kind.isAside with
    | true =>
      rcases Node.mem_nodes.1 hm with rfl | ⟨c, hc, hm⟩
      · refine if_neg fun hkind => ?_
        rw [hkind] at haside
        cases haside
      · have hleaf : c.children = [] := by
          simpa [Node.isLeaf] using (hs.formed.aside haside c hc).1
        rw [Node.nodes_eq, hleaf, List.flatMap_nil, List.mem_singleton] at hm
        rw [hm]
        exact w.include?_of_leaf hleaf
    | false =>
      rcases Node.mem_nodes.1 hm with rfl | ⟨c, hc, hm⟩
      · by_contra hsome
        obtain ⟨reference, hinclude⟩ := Option.ne_none_iff_exists'.1 hsome
        obtain ⟨-, c, hc, hkind⟩ := w.exists_of_include? hinclude
        exact (Node.child_names_eq_nil haside h hc).1 hkind
      · exact ih c hc (hs.child hc) (Node.child_names_eq_nil haside h hc).2 m hm

theorem due_of_no_names {n : Node} (hs : n.Shaped) (h : n.names false = []) :
    w.due false n = 0 := by
  have hincludes : n.nodes.filterMap (Node.include? w.keywords) = [] :=
    List.filterMap_eq_nil_iff.2 (w.include?_of_no_names hs h)
  rw [due, h, hincludes]
  rfl

theorem due_of_aside {n : Node} (hs : n.Shaped) (h : n.kind.isAside = true) :
    w.due false n = 0 :=
  w.due_of_no_names hs (Node.names_of_aside h false)

theorem due_tail {n : Node} (h : n.kind ≠ .identifier) (tail : Bool) :
    w.due tail n = w.due false n := by
  rw [due, due, Node.names_tail h]

/-- Nothing is due at comments and tokens. -/
theorem due_of_not_part {n : Node} (hs : n.Shaped) (h : n.isPart = false) (tail : Bool) :
    w.due tail n = 0 := by
  by_cases hcomment : n.kind = .comment
  · rw [w.due_tail (by simp [hcomment])]
    exact w.due_of_aside hs (by rw [hcomment]; rfl)
  · have hnamed : n.named = false := by simpa [Node.isPart, hcomment] using h
    obtain ⟨hleaf, hname⟩ := hs.formed.token hnamed
    have hchildren : n.children = [] := by simpa [Node.isLeaf] using hleaf
    replace hname : n.kind ≠ .identifier := by simpa [Node.isIdentifier] using hname
    rw [w.due_tail hname]
    refine w.due_of_no_names hs ?_
    rw [Node.names_eq, if_neg hname, hchildren]
    split <;> rfl

/-- Nothing is due but at parts. -/
theorem dues_parts {n : Node} (hs : n.Shaped) : w.dues n.parts = w.dues n.children :=
  w.dues_filter fun _ hc hpart => w.due_of_not_part (hs.child hc) hpart false

/-! ### What is due at a construct -/

/-- The include call that a node is. -/
def ownInclude (n : Node) : Tally := (0, ↑(n.include? w.keywords).toList)

theorem ownInclude_of_ne {n : Node} (h : n.kind ≠ .functionCall) : w.ownInclude n = 0 := by
  rw [ownInclude, Node.include?, if_neg h]
  rfl

theorem sum_due (tail : Node → Bool) (cs : List Node) :
    (cs.map fun c => w.due (tail c) c).sum =
      (↑((cs.flatMap fun c => c.names (tail c)).flatMap w.places),
        ↑((cs.flatMap Node.nodes).filterMap (Node.include? w.keywords))) := by
  induction cs with
  | nil => rfl
  | cons c cs ih =>
    rw [List.map_cons, List.sum_cons, ih, due]
    simp only [Prod.mk_add_mk, Multiset.coe_add, List.flatMap_cons, List.flatMap_append,
      List.filterMap_append]

/-- A node passes on what is due at its children; a call may add its own. -/
theorem due_children {n : Node} (hname : n.kind ≠ .identifier) (haside : n.kind.isAside = false) :
    w.due false n = w.ownInclude n +
      (n.children.map fun c => w.due (n.kind.isMember && c.isTail) c).sum := by
  have haside' : ¬ n.kind.isAside = true := by simpa using haside
  rw [sum_due, due, ownInclude, Node.names_eq, if_neg hname, if_neg haside', Node.nodes_eq]
  cases hinclude : n.include? w.keywords with
  | none => simp [hinclude]
  | some reference => simp [hinclude]

theorem due_of_plain {n : Node} (h : n.kind.isPlain = true) :
    w.due false n = w.dues n.children := by
  simp only [Kind.isPlain, Bool.and_eq_true, decide_eq_true_eq, Bool.not_eq_true'] at h
  obtain ⟨⟨⟨hname, hcall⟩, haside⟩, hmember⟩ := h
  rw [w.due_children hname haside, w.ownInclude_of_ne hcall, zero_add]
  simp only [hmember, Bool.false_and]
  rfl

theorem due_of_plain_parts {n : Node} (hs : n.Shaped) (h : n.kind.isPlain = true) :
    w.due false n = w.dues n.parts := by
  rw [w.due_of_plain h, w.dues_parts hs]

/-- A sum over children goes place by place. -/
theorem sum_by_place {places : List Field} (hplaces : places.Nodup) {f : Node → Tally}
    {cs : List Node} (hf : ∀ c ∈ cs, c.label.field ∉ places.map some → f c = 0) :
    (cs.map f).sum =
      (places.map fun p => ((cs.filter (·.label.field = some p)).map f).sum).sum := by
  induction places generalizing cs with
  | nil =>
    refine List.sum_eq_zero fun x hx => ?_
    obtain ⟨c, hc, rfl⟩ := List.mem_map.1 hx
    exact hf c hc (by simp)
  | cons p places ih =>
    obtain ⟨hp, hplaces⟩ := List.nodup_cons.1 hplaces
    have hsplit := ((List.filter_append_perm (·.label.field = some p) cs).map f).sum_eq
    have hrest : ((cs.filter fun c => !decide (c.label.field = some p)).map f).sum = _ :=
      ih hplaces fun c hc hout => by
        obtain ⟨hc, hne⟩ := List.mem_filter.1 hc
        exact hf c hc (by simpa using ⟨by simpa using hne, by simpa using hout⟩)
    rw [List.map_append, List.sum_append, hrest] at hsplit
    rw [← hsplit, List.map_cons, List.sum_cons]
    congr 2
    refine List.map_congr_left fun q hq => ?_
    have hne : q ≠ p := fun he => hp (he ▸ hq)
    rw [List.filter_filter]
    congr 2
    refine List.filter_congr fun c _ => ?_
    by_cases hc : c.label.field = some q
    · simp [hc, hne]
    · simp [hc]

theorem sum_places {n : Node} {places : List Field} (hplaces : places.Nodup)
    (hparts : n.PartsIn places) {f : Node → Tally}
    (hf : ∀ c ∈ n.children, c.isPart = false → f c = 0) :
    (n.children.map f).sum = (places.map fun p => ((n.childrenAt p).map f).sum).sum := by
  refine sum_by_place hplaces fun c hc hout => ?_
  cases hpart : c.isPart with
  | false => exact hf c hc hpart
  | true => exact absurd (hparts c (List.mem_filter.2 ⟨hc, hpart⟩)) hout

/-- What is due at the children of a node is due at those in its places. -/
theorem dues_places {n : Node} {places : List Field} (hs : n.Shaped) (hplaces : places.Nodup)
    (hparts : n.PartsIn places) :
    w.dues n.children = (places.map fun p => w.dues (n.childrenAt p)).sum :=
  sum_places hplaces hparts fun _ hc hpart => w.due_of_not_part (hs.child hc) hpart false

theorem due_of_identifier {n : Node} (hs : n.Shaped) (h : n.kind = .identifier) (tail : Bool) :
    w.due tail n = (↑(w.places (n, tail)), 0) := by
  have hleaf : n.children = [] := by
    simpa [Node.isLeaf] using hs.formed.name (by simpa [Node.isIdentifier] using h)
  have hnone : n.include? w.keywords = none := w.include?_of_leaf hleaf
  simp [due, Node.names_of_identifier h, Node.nodes_eq n, hleaf, hnone]

/-- At a member access it is due what is at the table, and the tail twice. -/
theorem due_of_member {n : Node} (hs : n.Shaped) (h : n.kind.isMember = true) :
    ∃ table tail, n.memberParts? = some (table, tail) ∧
      w.due false n = Trace.tally (w.memberEvents n table tail) + w.due false table := by
  obtain ⟨table, tail, htable, htail, hname, hmember⟩ := hs.formed.memberParts h
  refine ⟨table, tail, hmember, ?_⟩
  have hplaceTable : table.isTail = false := by
    have hplace := Node.place_of_mem (show table ∈ n.childrenAt .table by simp [htable])
    simp [Node.isTail, hplace]
  have hmem : tail ∈ n.childrenAt .field ++ n.childrenAt .method := by simp [htail]
  obtain ⟨hchild, hplaceTail⟩ : tail ∈ n.children ∧ tail.isTail = true := by
    rcases List.mem_append.1 hmem with hmem | hmem
    · exact ⟨Node.mem_of_childrenAt hmem, by simp [Node.isTail, Node.place_of_mem hmem]⟩
    · exact ⟨Node.mem_of_childrenAt hmem, by simp [Node.isTail, Node.place_of_mem hmem]⟩
  have htwice : w.due true tail = Trace.tally (w.memberEvents n table tail) :=
    w.due_of_identifier (hs.child hchild) hname true
  have htails : ((n.childrenAt .field).map fun c => w.due c.isTail c).sum +
      ((n.childrenAt .method).map fun c => w.due c.isTail c).sum = w.due true tail := by
    rw [← List.sum_append, ← List.map_append, htail]
    simp [hplaceTail]
  have hkind : n.kind ≠ .identifier ∧ n.kind ≠ .functionCall ∧ n.kind.isAside = false := by
    cases hk : n.kind <;> simp_all [Kind.isMember, Kind.isAside]
  rw [w.due_children hkind.1 hkind.2.2, w.ownInclude_of_ne hkind.2.1, zero_add, h]
  simp only [Bool.true_and]
  rw [sum_places (by decide) (hs.formed.member h).1
    fun c hc hpart => w.due_of_not_part (hs.child hc) hpart _]
  simp only [List.map_cons, List.map_nil, List.sum_cons, List.sum_nil, add_zero, htable,
    hplaceTable, htails, htwice]
  exact add_comm _ _

theorem tally_includeEvents {n callee arguments : Node} (hkind : n.kind = .functionCall)
    (hname : n.childrenAt .name = [callee]) (harguments : n.childrenAt .arguments = [arguments]) :
    Trace.tally (w.includeEvents (some callee) (some arguments)) = w.ownInclude n := by
  have hinclude : n.include? w.keywords = arguments.firstString?.bind fun reference =>
      if callee.isIdentifier ∧ callee.text ∈ w.keywords ∧ reference ≠ "" then
        some (reference, decide (callee.text = "require")) else none := by
    rw [Node.include?, if_pos hkind, Node.child?_eq, Node.child?_eq, hname, harguments,
      List.head?_cons, List.head?_cons, Option.bind_some]
    cases arguments.firstString? <;> rfl
  rw [ownInclude, hinclude]
  unfold includeEvents
  rw [Option.bind_some]
  cases arguments.firstString? with
  | none => rfl
  | some reference =>
    dsimp only [Option.bind_some]
    split <;> rfl

/-- At a call it is due what is at the callee and at the arguments, and the include. -/
theorem due_of_call {n : Node} (hs : n.Shaped) (h : n.kind = .functionCall) :
    ∃ callee arguments, n.callParts = (some callee, some arguments) ∧
      w.due false n = Trace.tally (w.includeEvents (some callee) (some arguments)) +
        w.dues [callee, arguments] := by
  obtain ⟨callee, arguments, hname, harguments, hcall⟩ := hs.formed.callParts h
  refine ⟨callee, arguments, hcall, ?_⟩
  have hchildren := w.dues_places hs (by decide) (hs.formed.call h).1
  simp only [List.map_cons, List.map_nil, List.sum_cons, List.sum_nil, hname, harguments,
    dues_cons, dues_nil, add_zero] at hchildren
  have haside : n.kind.isAside = false := by rw [h]; rfl
  have hmember : n.kind.isMember = false := by rw [h]; rfl
  rw [w.tally_includeEvents h hname harguments, w.due_children (by simp [h]) haside, hmember]
  simp only [Bool.false_and, dues_cons, dues_nil, add_zero]
  rw [← hchildren]
  rfl

/-- At a function it is due what is at its name, its parameters and its body. -/
theorem due_of_function {n : Node} (hs : n.Shaped) (h : n.kind.isFunction = true) :
    w.due false n = w.dues ((n.child? .name).toList ++
      (n.child? .parameters).elim [] Node.parts ++ n.childrenAt .body) := by
  obtain ⟨hparts, hname, hparameters, hkind⟩ := hs.formed.function h
  have hplain : n.kind.isPlain = true := by
    cases hk : n.kind <;> simp_all [Kind.isFunction, Kind.isPlain, Kind.isAside, Kind.isMember]
  -- the list of parameters is passed over, its parts are visited
  have hlist : w.dues ((n.child? .parameters).elim [] Node.parts) =
      w.dues (n.childrenAt .parameters) := by
    rw [← Node.toList_child? hparameters] at hkind ⊢
    cases hps : n.child? .parameters with
    | none => rfl
    | some ps =>
      have hplain : ps.kind.isPlain = true := by
        rw [hkind ps (by simp [hps])]
        rfl
      simp [w.due_of_plain_parts (hs.child (Node.mem_of_child? hps)) hplain]
  have hchildren := w.dues_places hs (by decide) hparts
  rw [w.due_of_plain hplain, hchildren, Node.toList_child? hname, dues_append, dues_append, hlist]
  simp [add_assoc]

/-- At an assignment it is due what is at its targets and its values. -/
theorem due_of_assignment {n : Node} (hs : n.Shaped) (h : n.kind = .assignmentStatement) :
    w.due false n = w.dues (n.assignmentParts.1 ++ n.assignmentParts.2) := by
  obtain ⟨targets, values, htargets, hvalues, hperm, hassignment⟩ := hs.formed.assignmentLists h
  have hshaped (c : Node) (hc : c ∈ [targets, values]) : c.Shaped :=
    hs.child (Node.mem_of_parts (hperm.mem_iff.2 hc))
  have hparts : w.dues n.parts = w.due false targets + w.due false values := by
    rw [dues, (hperm.map _).sum_eq]
    simp
  have hfilter : w.dues (targets.parts.filter (·.kind ≠ .attrib)) = w.dues targets.parts := by
    refine w.dues_filter fun c hc hattrib => ?_
    have hkind : c.kind = .attrib := by simpa using hattrib
    have hc := (hshaped targets (by simp)).child (Node.mem_of_parts hc)
    exact w.due_of_aside hc (by rw [hkind]; rfl)
  rw [w.due_of_plain_parts hs (by rw [h]; rfl), hparts,
    w.due_of_plain_parts (hshaped targets (by simp)) (by rw [htargets]; rfl),
    w.due_of_plain_parts (hshaped values (by simp)) (by rw [hvalues]; rfl), hassignment,
    dues_append, hfilter]

/-- Among names and attributes the names are all that counts. -/
theorem dues_identifiers {ns : List Node} (hs : ∀ n ∈ ns, n.Shaped)
    (h : ∀ n ∈ ns, n.isIdentifier ∨ n.kind = .attrib) :
    w.dues (ns.filter Node.isIdentifier) = w.dues ns := by
  refine w.dues_filter fun n hn hname => ?_
  have hkind := (h n hn).resolve_left (by simp [hname])
  exact w.due_of_aside (hs n hn) (by rw [hkind]; rfl)

/-- At a declaration it is due what is at its names and its values. -/
theorem due_of_declaration {n : Node} (hs : n.Shaped) (h : n.kind = .variableDeclaration) :
    w.due false n = w.dues (n.declarationParts.1 ++ n.declarationParts.2) := by
  obtain ⟨c, hparts, hcase⟩ := hs.formed.declarationParts h
  have hc : c.Shaped := hs.child (Node.mem_of_parts (by simp [hparts]))
  rw [w.due_of_plain_parts hs (by rw [h]; rfl), hparts, dues_cons, dues_nil, add_zero]
  rcases hcase with ⟨hkind, hnames, hdeclaration⟩ | ⟨hkind, hnames, hdeclaration⟩
  · have hshaped (m : Node) (hm : m ∈ c.parts) : m.Shaped := hc.child (Node.mem_of_parts hm)
    rw [w.due_of_plain_parts hc (by rw [hkind]; rfl), hdeclaration, List.append_nil,
      w.dues_identifiers hshaped hnames]
  · obtain ⟨targets, values, htargets, -, hperm, hassignment⟩ := hc.formed.assignmentLists hkind
    have hmem : targets ∈ c.parts := hperm.mem_iff.2 (by simp)
    have htarget (m : Node) (hm : m ∈ c.assignmentParts.1) : m ∈ targets.parts := by
      rw [hassignment] at hm
      exact (List.mem_filter.1 hm).1
    have hshaped (m : Node) (hm : m ∈ c.assignmentParts.1) : m.Shaped :=
      (hc.child (Node.mem_of_parts hmem)).child (Node.mem_of_parts (htarget m hm))
    rw [w.due_of_assignment hc hkind, hdeclaration, dues_append, dues_append,
      w.dues_identifiers hshaped fun m hm => hnames targets hmem htargets m (htarget m hm)]

/-! ### Declarations -/

theorem declares_targetEvents (n : Node) : ∀ e ∈ w.targetEvents n, e.declares = true := by
  unfold targetEvents
  split
  · simp [Event.declares]
  · simp

theorem declares_functionEvents (n name : Node) :
    ∀ e ∈ w.functionEvents n name, e.declares = true := by
  unfold functionEvents
  split
  · split
    · simp
    · simp [Event.declares]
  · simp

theorem declares_pairedFields (owner? : Node → Option String) (targets values : List Node) :
    ∀ e ∈ w.pairedFields owner? targets values, e.declares = true := by
  intro e he
  obtain ⟨⟨t, v⟩, -, he⟩ := List.mem_flatMap.1 he
  dsimp only at he
  cases howner : owner? t with
  | none =>
    rw [howner] at he
    cases he
  | some owner =>
    rw [howner] at he
    obtain ⟨a, rfl, -⟩ := w.assignment_of_tableEvents owner v he
    rfl

theorem declares_locals (ns : List Node) :
    ∀ e ∈ ns.map (Event.localName <| w.declaration ·), e.declares = true := by
  simp [Event.declares]

/-- A node of a plain kind is reported by declarations alone. -/
theorem declares_ownEvents {n : Node} (h : n.kind.isPlain = true) :
    ∀ e ∈ w.ownEvents n, e.declares = true := by
  have hfunction (name? : Option Node) (ps : List Node) :
      ∀ e ∈ name?.elim [] (w.functionEvents n) ++ ps.map (.parameter <| w.declaration ·),
        e.declares = true := by
    intro e he
    rcases List.mem_append.1 he with he | he
    · cases name? with
      | none => cases he
      | some name => exact w.declares_functionEvents n name e he
    · obtain ⟨p, -, rfl⟩ := List.mem_map.1 he
      rfl
  unfold ownEvents
  split <;> rename_i hkind
  · rw [hkind] at h
    cases h
  · rw [hkind] at h
    cases h
  · rw [hkind] at h
    cases h
  · exact List.forall_mem_append.2 ⟨w.declares_locals _, w.declares_pairedFields _ _ _⟩
  · refine List.forall_mem_append.2 ⟨fun e he => ?_, w.declares_pairedFields _ _ _⟩
    obtain ⟨t, -, he⟩ := List.mem_flatMap.1 he
    exact w.declares_targetEvents t e he
  · exact hfunction _ _
  · exact hfunction _ _
  · rw [hkind] at h
    cases h
  · exact w.declares_locals _
  · exact w.declares_locals _
  · simp

/-! ## One step -/

/-- Where the walk knows no handler nothing is due, nor in the body. -/
theorem due_of_unhandled {n : Node} (hs : n.Shaped) (h : n.kind.isHandled = false) :
    w.due false n = 0 ∧ w.dues (n.childrenAt .body) = 0 := by
  have hnames := hs.formed.unhandled h
  refine ⟨w.due_of_no_names hs hnames, w.dues_eq_zero fun c hc => ?_⟩
  have hchild := Node.mem_of_childrenAt hc
  cases haside : n.kind.isAside with
  | true => exact absurd (Node.place_of_mem hc) (hs.formed.aside haside c hchild).2
  | false =>
    exact w.due_of_no_names (hs.child hchild) (Node.child_names_eq_nil haside hnames hchild).2

theorem due_next_of_plain {n : Node} (hs : n.Shaped) (h : n.kind.isPlain = true) :
    w.due false n = w.dues n.next := by
  unfold Node.next
  split <;> rename_i hkind
  · rw [hkind] at h
    cases h
  · rw [hkind] at h
    cases h
  · rw [hkind] at h
    cases h
  · exact w.due_of_declaration hs hkind
  · exact w.due_of_assignment hs hkind
  · exact w.due_of_function hs (by rw [hkind]; rfl)
  · exact w.due_of_function hs (by rw [hkind]; rfl)
  · rw [hkind] at h
    cases h
  · exact w.due_of_plain_parts hs h
  · exact w.due_of_plain_parts hs h
  · split
    · exact w.due_of_plain_parts hs h
    · next hcontainer =>
      have hhandled : n.kind.isHandled = false := by
        unfold Kind.isHandled
        split <;> simp_all
      obtain ⟨hown, hbody⟩ := w.due_of_unhandled hs hhandled
      rw [hown, hbody]

theorem due_eq_of_member {n : Node} (hs : n.Shaped)
    (h : n.kind = .dotIndex ∨ n.kind = .methodIndex) :
    w.due false n = Trace.tally (w.ownEvents n) + w.dues n.next := by
  have hkind : n.kind.isMember = true := by
    rcases h with h | h <;> rw [h] <;> rfl
  obtain ⟨table, tail, hmember, hdue⟩ := w.due_of_member hs hkind
  rcases h with h | h
  all_goals
    simp only [ownEvents, Node.next, h, hmember, Option.map_some, Option.toList_some, dues_cons,
      dues_nil, add_zero]
    exact hdue

theorem due_eq_of_aside {n : Node} (hs : n.Shaped) (h : n.kind = .attrib ∨ n.kind = .comment) :
    w.due false n = Trace.tally (w.ownEvents n) + w.dues n.next := by
  have hkind : n.kind.isHandled = false := by
    rcases h with h | h <;> rw [h] <;> rfl
  obtain ⟨hown, hbody⟩ := w.due_of_unhandled hs hkind
  rcases h with h | h
  all_goals
    simp only [ownEvents, Node.next, h]
    exact hown.trans ((zero_add _).trans hbody).symm

/-- What is due at a node is what the walk reports there, and what is due where it goes. -/
theorem due_eq {n : Node} (hs : n.Shaped) :
    w.due false n = Trace.tally (w.ownEvents n) + w.dues n.next := by
  by_cases hplain : n.kind.isPlain = true
  · rw [Trace.tally_of_declares (w.declares_ownEvents hplain), zero_add]
    exact w.due_next_of_plain hs hplain
  · have hkinds : n.kind = .identifier ∨ n.kind = .functionCall ∨
        (n.kind = .attrib ∨ n.kind = .comment) ∨ n.kind = .dotIndex ∨ n.kind = .methodIndex := by
      cases hk : n.kind <;> simp_all [Kind.isPlain, Kind.isAside, Kind.isMember]
    rcases hkinds with hkind | hkind | hkind | hkind
    · simp only [ownEvents, Node.next, hkind, dues_nil, add_zero]
      exact w.due_of_identifier hs hkind false
    · obtain ⟨callee, arguments, hcall, hdue⟩ := w.due_of_call hs hkind
      simp only [ownEvents, Node.next, hkind, hcall]
      exact hdue
    · exact w.due_eq_of_aside hs hkind
    · exact w.due_eq_of_member hs hkind

/-! ## The whole walk -/

/-- Nothing goes too deep at a node itself. -/
theorem tooDeep_notMem_ownEvents (n : Node) : Event.tooDeep ∉ w.ownEvents n := by
  by_cases hplain : n.kind.isPlain = true
  · intro hmem
    cases w.declares_ownEvents hplain _ hmem
  · have hinclude : Event.tooDeep ∉ w.includeEvents n.callParts.1 n.callParts.2 := by
      unfold includeEvents
      split
      · split <;> simp
      · simp
    unfold ownEvents
    split <;> rename_i hkind
    · simp
    · cases n.memberParts? <;> simp [memberEvents]
    · cases n.memberParts? <;> simp [memberEvents]
    · exact absurd (by rw [hkind]; rfl) hplain
    · exact absurd (by rw [hkind]; rfl) hplain
    · exact absurd (by rw [hkind]; rfl) hplain
    · exact absurd (by rw [hkind]; rfl) hplain
    · exact hinclude
    · exact absurd (by rw [hkind]; rfl) hplain
    · exact absurd (by rw [hkind]; rfl) hplain
    · simp

/-- A walk that may go as deep as there are nodes never goes too deep. -/
theorem tooDeep_notMem_events {depth : Nat} {n : Node} (h : n.nodes.length ≤ depth) :
    Event.tooDeep ∉ w.events depth n := by
  induction depth generalizing n with
  | zero =>
    rw [Node.nodes_eq, List.length_cons] at h
    omega
  | succ depth ih =>
    intro hmem
    rcases List.mem_append.1 ((w.events_perm depth n).mem_iff.1 hmem) with hown | hnext
    · exact w.tooDeep_notMem_ownEvents n hown
    · obtain ⟨c, hc, hmem⟩ := List.mem_flatMap.1 hnext
      have hlt := (Node.below_of_next hc).length_lt
      exact ih (by omega) hmem

/-- What is due is reported, unless the walk goes too deep. -/
theorem tally_events {depth : Nat} {n : Node} (hs : n.Shaped)
    (h : Event.tooDeep ∉ w.events depth n) : Trace.tally (w.events depth n) = w.due false n := by
  induction depth generalizing n with
  | zero => simp [events] at h
  | succ depth ih =>
    have hstep := w.events_perm depth n
    have hnext (c : Node) (hc : c ∈ n.next) :
        Trace.tally (w.events depth c) = w.due false c := by
      refine ih (hs.below (Node.below_of_next hc)) fun hdeep => h (hstep.mem_iff.2 ?_)
      exact List.mem_append_right _ (List.mem_flatMap.2 ⟨c, hc, hdeep⟩)
    calc Trace.tally (w.events (depth + 1) n)
        = Trace.tally (w.ownEvents n) + Trace.tally (n.next.flatMap (w.events depth)) := by
          rw [Trace.tally_perm hstep, Trace.tally_append]
      _ = Trace.tally (w.ownEvents n) + w.dues n.next := by
          rw [Trace.tally_flatMap, List.map_congr_left hnext]
          rfl
      _ = w.due false n := (w.due_eq hs).symm

/-- **The walk covers the tree.** In a shaped tree, every name outside attributes and
comments is reported at its place, once, or twice if it is the tail of a member access; every
call that includes something is followed once; and there is nothing else. This is so at any
depth that the walk may go to unless it has to go deeper, and there is always a depth at
which it has not. -/
theorem events_cover {root : Node} (hs : root.Shaped) :
    Trace.isComplete (w.events root.nodes.length root) = true ∧
    ∀ depth, Trace.isComplete (w.events depth root) = true →
      ((Trace.bindings (w.events depth root)).identifiers.map (·.range)).Perm
        ((root.names false).flatMap fun (n, tail) =>
          if tail then [w.range n, w.range n] else [w.range n]) ∧
      (Trace.includes (w.events depth root)).Perm
        (root.nodes.filterMap (Node.include? w.keywords)) := by
  refine ⟨by simp [Trace.isComplete, w.tooDeep_notMem_events le_rfl], fun depth hcomplete => ?_⟩
  have hdeep : Event.tooDeep ∉ w.events depth root := by simpa [Trace.isComplete] using hcomplete
  have htally := w.tally_events hs hdeep
  simp only [Trace.tally, due, Prod.mk.injEq, Multiset.coe_eq_coe] at htally
  rw [Trace.identifiers_places, Trace.includes, Trace.reached_of_isComplete hcomplete]
  exact htally

/-- A text with most of what the walk treats in its own way. -/
def covered : String := "local t <const>, u = require('a.b').c function t.f(p) return t:g(p) end"

theorem parse?_covered : ∃ root, Lua.parse? covered = some root ∧ root.Shaped ∧
    (root.names false).map (·.2) =
      [false, false, false, true, false, true, false, false, true, false] ∧
    root.nodes.filterMap (Node.include? ["require"]) = [("a.b", true)] := by
  have hparse : (Lua.parse? covered).any (fun root => decide (root.Shaped ∧
      (root.names false).map (·.2) =
        [false, false, false, true, false, true, false, false, true, false] ∧
      root.nodes.filterMap (Node.include? ["require"]) = [("a.b", true)])) = true := by
    decide +kernel
  obtain ⟨root, hroot, hfacts⟩ := (Option.any_eq_true _ _).1 hparse
  exact ⟨root, hroot, of_decide_eq_true hfacts⟩

theorem events_cover_covered : ∃ root, Lua.parse? covered = some root ∧
    ∀ w : Walk, w.keywords = ["require"] → Trace.isComplete (w.trace root) = true →
      (w.trace root).bindings.identifiers.length = 13 ∧
        Trace.includes (w.trace root) = [("a.b", true)] := by
  obtain ⟨root, hroot, hshaped, htails, hincludes⟩ := parse?_covered
  refine ⟨root, hroot, fun w hkeywords hcomplete => ?_⟩
  obtain ⟨hplaces, hcalls⟩ := (w.events_cover hshaped).2 depthLimit hcomplete
  rw [hkeywords, hincludes] at hcalls
  have hlength := hplaces.length_eq
  have htotal : ((root.names false).flatMap w.places).length =
      (((root.names false).map (·.2)).map fun tail => if tail then 2 else 1).sum := by
    rw [List.length_flatMap, List.map_map]
    refine congrArg List.sum (List.map_congr_left fun p _ => ?_)
    obtain ⟨n, tail⟩ := p
    cases tail <;> rfl
  rw [htails] at htotal
  rw [List.length_map] at hlength
  exact ⟨hlength.trans htotal, List.perm_singleton.1 hcalls⟩

end Walk

end LuaSymbols
