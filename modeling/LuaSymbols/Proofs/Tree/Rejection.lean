import Mathlib
import LuaSymbols.Proofs.Tree.Shape
import LuaSymbols.Tree.Fault

/-!
# What a tree is rejected for

A search with a stack meets nodes in pre-order, each before the children that it opens
(`Node.preorder`), and gives the first thing that it finds there (`search_eq`).

The gate for newer syntax goes on to the named children. So it refuses a tree exactly if one
of the nodes that these lead to asks for too much, and tells of the first of them
(`version_gate_exact`). The search for a syntax error goes below flagged nodes only. Where the flags
are right (`Flagged`), there is nothing to be found elsewhere, and the search tells of the
first missing or erroneous node of the whole tree (`error_search_exact`).
-/

namespace LuaSymbols

theorem findSome?_eq_bind_find? {α β : Type} (f : α → Option β) (l : List α) :
    l.findSome? f = (l.find? fun a => (f a).isSome).bind f := by
  induction l with
  | nil => rfl
  | cons a l ih =>
    rw [List.findSome?_cons, List.find?_cons]
    cases h : f a with
    | none => simpa using ih
    | some b => simp [h]

theorem findSome?_congr {α β : Type} {f g : α → Option β} {l : List α}
    (h : ∀ a ∈ l, f a = g a) : l.findSome? f = l.findSome? g := by
  induction l with
  | nil => rfl
  | cons a l ih =>
    rw [List.findSome?_cons, List.findSome?_cons, h a List.mem_cons_self,
      ih fun b hb => h b (List.mem_cons_of_mem a hb)]

namespace Node

/-! ## Searches -/

mutual
/-- The nodes that a search meets until it finds something, in its order. -/
def preorder (opens : Node → Node → Bool) : Node → List Node
  | mk l cs => mk l cs :: preorderAmong opens (mk l cs) cs

def preorderAmong (opens : Node → Node → Bool) (parent : Node) : List Node → List Node
  | [] => []
  | c :: cs =>
    (if opens parent c then preorder opens c else []) ++ preorderAmong opens parent cs
end

section
variable {opens : Node → Node → Bool}

theorem preorderAmong_eq (parent : Node) (cs : List Node) :
    preorderAmong opens parent cs = (cs.filter (opens parent)).flatMap (preorder opens) := by
  induction cs with
  | nil => simp [preorderAmong]
  | cons c cs ih =>
    rw [preorderAmong, ih, List.filter_cons]
    split <;> rfl

theorem preorder_eq (n : Node) :
    n.preorder opens = n :: (n.opened opens).flatMap (preorder opens) := by
  cases n with
  | mk l cs => rw [preorder, preorderAmong_eq, opened, children]

/-- A search leaves nodes out, but never changes their order. -/
theorem preorder_sublist (n : Node) : (n.preorder opens).Sublist n.nodes := by
  induction n using induction with
  | h n ih =>
    rw [preorder_eq, nodes_eq]
    refine List.Sublist.cons_cons n ?_
    have hopened : (n.opened opens).Sublist n.children := List.filter_sublist
    refine List.Sublist.trans (List.Sublist.flatMap_right _ fun c hc => ?_) (hopened.flatMap nodes)
    exact ih c (hopened.subset hc)

/-- What a search finds is the first thing in the trees on its stack. -/
theorem search_eq (found? : Node → Option Fault) (stack : List Node) :
    search found? opens stack = (stack.flatMap (preorder opens)).findSome? found? := by
  induction stack using search.induct found? opens with
  | case1 => simp [search]
  | case2 n stack f hf =>
    rw [search, hf, List.flatMap_cons, preorder_eq, List.cons_append, List.findSome?_cons, hf]
  | case3 n stack hnone ih =>
    -- the opened children come first, then the rest of the stack, as below and behind the node
    rw [search, hnone, ih, List.flatMap_append, List.flatMap_cons, preorder_eq, List.cons_append,
      List.findSome?_cons, hnone]

theorem search_root (found? : Node → Option Fault) (root : Node) :
    search found? opens [root] = (root.preorder opens).findSome? found? := by
  rw [search_eq, List.flatMap_singleton]

end

/-! ## Newer syntax -/

/-- The root of a tree and the nodes that named children lead to. -/
inductive NamedWithin : Node → Node → Prop where
  | root (n : Node) : NamedWithin n n
  | child {n c m : Node} : c ∈ n.children → c.named = true → NamedWithin c m → NamedWithin n m

/-- The same nodes, in pre-order. -/
def namedNodes (root : Node) : List Node := root.preorder fun _ c => c.named

theorem namedNodes_eq (n : Node) : n.namedNodes = n :: n.namedChildren.flatMap namedNodes :=
  preorder_eq n

theorem mem_namedNodes {root n : Node} : n ∈ root.namedNodes ↔ NamedWithin root n := by
  constructor
  · intro h
    induction root using induction with
    | h root ih =>
      rw [namedNodes_eq, List.mem_cons, List.mem_flatMap] at h
      rcases h with rfl | ⟨c, hc, hn⟩
      · exact .root n
      · obtain ⟨hchild, hnamed⟩ := List.mem_filter.1 hc
        exact .child hchild hnamed (ih c hchild hn)
  · intro h
    induction h with
    | root n =>
      rw [namedNodes_eq]
      exact List.mem_cons_self
    | @child n c m hchild hnamed _ ih =>
      rw [namedNodes_eq]
      refine List.mem_cons_of_mem n (List.mem_flatMap.2 ⟨c, ?_, ih⟩)
      exact List.mem_filter.2 ⟨hchild, hnamed⟩

/-- The node asks for a dialect that `v` does not support. -/
def exceeds (v : LuaVersion) (n : Node) : Bool := n.requiredVersion?.any (!v.supports ·)

theorem exceeds_iff {v : LuaVersion} {n : Node} : n.exceeds v = true ↔
    ∃ required, n.requiredVersion? = some required ∧ v.supports required = false := by
  simp [exceeds, Option.any_eq_true]

theorem ownGate?_of_required {v required : LuaVersion} {n : Node}
    (h : n.requiredVersion? = some required) (hv : v.supports required = false) :
    n.ownGate? v = some ⟨.tooNew n.kind required v, n.span.start⟩ := by
  simp [ownGate?, h, hv]

theorem isSome_ownGate? (v : LuaVersion) (n : Node) : (n.ownGate? v).isSome = n.exceeds v := by
  unfold ownGate? exceeds
  cases n.requiredVersion? with
  | none => rfl
  | some required => cases h : v.supports required <;> simp [h]

/-- The scan tells of the first node in pre-order that asks for too much. -/
theorem scanGate?_eq (v : LuaVersion) (root : Node) :
    root.scanGate? v = (root.namedNodes.find? (exceeds v)).bind (ownGate? v) := by
  have hfound : (fun n => (ownGate? v n).isSome) = exceeds v := funext (isSome_ownGate? v)
  rw [scanGate?, search_root, findSome?_eq_bind_find?, hfound]
  rfl

/-- The scan passes exactly the trees in which no node asks for too much. -/
theorem scanGate?_eq_none_iff {v : LuaVersion} {root : Node} :
    root.scanGate? v = none ↔ ∀ n, NamedWithin root n → n.exceeds v = false := by
  rw [scanGate?, search_root, List.findSome?_eq_none_iff]
  refine forall_congr' fun n => ?_
  rw [← isSome_ownGate?, Option.isSome_eq_false_iff, Option.isNone_iff_eq_none]
  exact imp_congr_left mem_namedNodes

theorem supports_lua54 (required : LuaVersion) : LuaVersion.lua54.supports required = true := by
  cases required <;> rfl

/-- What a dialect lacks, those that it supports lack too. -/
theorem exceeds_of_supports {v v' : LuaVersion} {n : Node} (hv : v'.supports v = true)
    (h : n.exceeds v' = true) : n.exceeds v = true := by
  obtain ⟨required, hrequired, hlacks⟩ := exceeds_iff.1 h
  refine exceeds_iff.2 ⟨required, hrequired, ?_⟩
  simp only [LuaVersion.supports, decide_eq_true_eq, decide_eq_false_iff_not] at hv hlacks ⊢
  omega

/-- Nothing is lost by letting all trees pass under 5.4. -/
theorem gate?_eq_scanGate? (v : LuaVersion) (root : Node) : root.gate? v = root.scanGate? v := by
  unfold gate?
  split
  · next hv =>
    subst hv
    symm
    refine scanGate?_eq_none_iff.2 fun n _ => ?_
    by_contra h
    obtain ⟨required, -, hlacks⟩ := exceeds_iff.1 (by simpa using h)
    simp [supports_lua54] at hlacks
  · rfl

/-- **The version gate is exact and monotone.** Let `namedNodes` list, in the order of the
tree, the nodes that named children lead to. A tree is refused if and only if one of them asks
for a dialect that `v` does not support, and the refusal then tells of the first that does,
with its line from one and its byte column. The early return for 5.4 gives what the whole scan
gives, and a dialect that supports `v` refuses nothing that `v` accepts. -/
theorem version_gate_exact (v : LuaVersion) (root : Node) :
    (∀ n, n ∈ root.namedNodes ↔ NamedWithin root n) ∧ root.namedNodes.Sublist root.nodes ∧
    ((root.gate? v).isSome = true ↔ ∃ n required, NamedWithin root n ∧
      n.requiredVersion? = some required ∧ v.supports required = false) ∧
    (∀ f, root.gate? v = some f → ∃ earlier n later required,
      root.namedNodes = earlier ++ n :: later ∧
      (∀ m ∈ earlier, ∀ asked, m.requiredVersion? = some asked → v.supports asked = true) ∧
      n.requiredVersion? = some required ∧ v.supports required = false ∧
      f.line = n.span.start.row + 1 ∧ f.column = n.span.start.column ∧
      f.message = "'" ++ n.kind.name ++ "' requires Lua " ++ required.name ++
        " (configured: " ++ v.name ++ ")") ∧
    root.gate? v = root.scanGate? v ∧
    ∀ v' : LuaVersion, v'.supports v = true → root.gate? v = none → root.gate? v' = none := by
  refine ⟨fun n => mem_namedNodes, preorder_sublist root, ?_, fun f hf => ?_,
    gate?_eq_scanGate? v root, fun v' hv hnone => ?_⟩
  · rw [gate?_eq_scanGate?, ← Option.ne_none_iff_isSome, ne_eq, scanGate?_eq_none_iff]
    push Not
    refine exists_congr fun n => ?_
    rw [ne_eq, Bool.not_eq_false, exceeds_iff, exists_and_left]
  · rw [gate?_eq_scanGate?, scanGate?_eq] at hf
    obtain ⟨n, hfirst, hown⟩ := Option.bind_eq_some_iff.1 hf
    obtain ⟨hexceeds, earlier, later, hsplit, hearlier⟩ := List.find?_eq_some_iff_append.1 hfirst
    obtain ⟨required, hrequired, hlacks⟩ := exceeds_iff.1 hexceeds
    rw [ownGate?_of_required hrequired hlacks] at hown
    cases hown
    refine ⟨earlier, n, later, required, hsplit, fun m hm asked hasked => ?_, hrequired, hlacks,
      rfl, rfl, rfl⟩
    by_contra hlacks'
    have hm' := exceeds_iff.2 ⟨asked, hasked, by simpa using hlacks'⟩
    have hearlier_m := hearlier m hm
    simp [hm'] at hearlier_m
  · rw [gate?_eq_scanGate?, scanGate?_eq_none_iff] at hnone ⊢
    intro n hn
    by_contra hexceeds
    have hexceeds' := exceeds_of_supports hv (by simpa using hexceeds)
    simp [hnone n hn] at hexceeds'

/-! ## Syntax errors -/

/-- A node at which something is missing or wrong. -/
def isFaulty (n : Node) : Bool := n.label.isMissing || n.label.isError

/-- The flags of a tree are right: a node has one just if it is faulty or a child has one. -/
def Flagged (root : Node) : Prop := ∀ n ∈ root.nodes,
  n.label.hasError = (n.isFaulty || n.children.any (·.label.hasError))

instance (root : Node) : Decidable root.Flagged :=
  inferInstanceAs (Decidable (∀ n ∈ root.nodes, _))

theorem Flagged.root {n : Node} (h : n.Flagged) :
    n.label.hasError = (n.isFaulty || n.children.any (·.label.hasError)) :=
  h n n.self_mem_nodes

theorem Flagged.child {n c : Node} (h : n.Flagged) (hc : c ∈ n.children) : c.Flagged :=
  fun m hm => h m (mem_nodes.2 (.inr ⟨c, hc, hm⟩))

theorem isSome_ownFault? (n : Node) : n.ownFault?.isSome = n.isFaulty := by
  unfold ownFault? isFaulty
  cases n.label.isMissing <;> cases n.label.isError <;> rfl

/-- Nothing is wrong below a node without a flag. -/
theorem Flagged.isFaulty_eq_false {root n : Node} (h : root.Flagged)
    (hflag : root.label.hasError = false) (hn : n ∈ root.nodes) : n.isFaulty = false := by
  induction root using induction with
  | h root ih =>
    rw [h.root, Bool.or_eq_false_iff, List.any_eq_false] at hflag
    rcases mem_nodes.1 hn with rfl | ⟨c, hc, hn⟩
    · exact hflag.1
    · exact ih c hc (h.child hc) (by simpa using hflag.2 c hc) hn

/-- The search below flagged nodes comes upon the first faulty node of the whole tree. -/
theorem Flagged.find?_preorder {root : Node} (h : root.Flagged) :
    (root.preorder fun n _ => n.label.hasError).find? isFaulty = root.nodes.find? isFaulty := by
  induction root using induction with
  | h root ih =>
    cases hflag : root.label.hasError with
    | false =>
      have hsound (n : Node) (hn : n ∈ root.nodes) : ¬ n.isFaulty = true := by
        simp [h.isFaulty_eq_false hflag hn]
      rw [List.find?_eq_none.2 hsound]
      exact List.find?_eq_none.2 fun n hn => hsound n ((preorder_sublist root).subset hn)
    | true =>
      have hopened : root.opened (fun n _ => n.label.hasError) = root.children := by
        simp [opened, hflag]
      have hbelow := findSome?_congr fun c hc => ih c hc (h.child hc)
      rw [preorder_eq, nodes_eq, hopened, List.find?_cons, List.find?_cons, List.find?_flatMap,
        List.find?_flatMap, hbelow]

/-- The error of a tree with right flags is that of its first faulty node. -/
theorem Flagged.fault_eq {root : Node} (h : root.Flagged) :
    root.fault = ((root.nodes.find? isFaulty).bind ownFault?).getD ⟨.invalid, root.span.start⟩ := by
  have hfound : (fun n => (ownFault? n).isSome) = isFaulty := funext isSome_ownFault?
  rw [fault, search_root, findSome?_eq_bind_find?, hfound, h.find?_preorder]

theorem Flagged.fault_eq_invalid {root : Node} (h : root.Flagged)
    (hsound : ∀ n ∈ root.nodes, n.isFaulty = false) :
    root.fault = ⟨.invalid, root.span.start⟩ := by
  have hnone : root.nodes.find? isFaulty = none := by
    simpa [List.find?_eq_none] using hsound
  rw [h.fault_eq, hnone]
  rfl

theorem ownFault?_of_isFaulty {n : Node} (h : n.isFaulty = true) :
    n.ownFault? = some ⟨if n.label.isMissing then .missing n.kind else .unexpected (snippet n.text),
      n.span.start⟩ := by
  unfold ownFault?
  split
  · rfl
  · next hmissing =>
    have herror : n.label.isError = true := by simpa [isFaulty, hmissing] using h
    rw [if_pos herror]

theorem message_ne_invalid (kind : Kind) (text : String) :
    (Fault.Cause.missing kind).message ≠ "invalid syntax" ∧
      (Fault.Cause.unexpected text).message ≠ "invalid syntax" := by
  constructor <;> intro h <;>
    simpa [Fault.Cause.message] using congrArg (·.toList.head?) h

/-- **The search below flagged nodes loses nothing.** Let the flags of a tree be right. If one
of its nodes, named or not, is missing or an error, then the tree is rejected for the first
such node in pre-order, at the line and column of that node, and for being missing rather than
for the error if it is both. It is rejected as a whole exactly if it has no such node. -/
theorem error_search_exact {root : Node} (h : root.Flagged) :
    (∀ earlier n later, root.nodes = earlier ++ n :: later →
      (∀ m ∈ earlier, m.label.isMissing = false ∧ m.label.isError = false) →
      n.label.isMissing = true ∨ n.label.isError = true →
      root.fault.line = n.span.start.row + 1 ∧ root.fault.column = n.span.start.column ∧
      root.fault.message = if n.label.isMissing then "missing '" ++ n.kind.name ++ "'"
        else "unexpected '" ++ snippet n.text ++ "'") ∧
    (root.fault.message = "invalid syntax" ↔
      ∀ n ∈ root.nodes, n.label.isMissing = false ∧ n.label.isError = false) ∧
    ((∀ n ∈ root.nodes, n.label.isMissing = false ∧ n.label.isError = false) →
      root.fault.line = root.span.start.row + 1 ∧
      root.fault.column = root.span.start.column) := by
  have hsound (n : Node) :
      (n.label.isMissing = false ∧ n.label.isError = false) ↔ n.isFaulty = false := by
    rw [isFaulty, Bool.or_eq_false_iff]
  have hfirst {n : Node} (hn : root.nodes.find? isFaulty = some n) :
      root.fault = ⟨if n.label.isMissing then .missing n.kind else .unexpected (snippet n.text),
        n.span.start⟩ := by
    rw [h.fault_eq, hn, Option.bind_some, ownFault?_of_isFaulty (List.find?_some hn),
      Option.getD_some]
  simp only [hsound]
  refine ⟨fun earlier n later hsplit hearlier hn => ?_, ⟨fun hmessage => ?_, fun hnone => ?_⟩,
    fun hnone => ?_⟩
  · have hfound : root.nodes.find? isFaulty = some n :=
      List.find?_eq_some_iff_append.2 ⟨by simpa [isFaulty] using hn, earlier, later, hsplit,
        by simpa using hearlier⟩
    rw [hfirst hfound]
    refine ⟨rfl, rfl, ?_⟩
    unfold Fault.message
    split <;> rfl
  · -- a message that tells of a node is none that tells of the whole tree
    by_contra hfaulty
    obtain ⟨n, hn⟩ : ∃ n, root.nodes.find? isFaulty = some n := by
      rw [← Option.isSome_iff_exists, List.find?_isSome]
      simpa using hfaulty
    rw [hfirst hn, Fault.message] at hmessage
    split at hmessage
    · exact (message_ne_invalid _ "").1 hmessage
    · exact (message_ne_invalid n.kind _).2 hmessage
  · rw [h.fault_eq_invalid hnone]
    rfl
  · rw [h.fault_eq_invalid hnone]
    exact ⟨rfl, rfl⟩

/-- An error with another error and a missing token in it, behind a node in order. -/
def nestedError : Node :=
  let inner := mk
    { kind := .other "ERROR", text := ")", span := ⟨⟨1, 6⟩, ⟨1, 7⟩⟩,
      isError := true, hasError := true } []
  let absent := mk
    { kind := .other "end", named := false, span := ⟨⟨1, 7⟩, ⟨1, 7⟩⟩,
      isMissing := true, hasError := true } []
  let outer := mk
    { kind := .other "ERROR", text := "x = )", span := ⟨⟨1, 2⟩, ⟨1, 7⟩⟩,
      isError := true, hasError := true } [inner, absent]
  mk { kind := .chunk, hasError := true }
    [mk { kind := .breakStatement } [], mk { kind := .block, hasError := true } [outer]]

theorem error_search_exact_nested : nestedError.Flagged ∧ nestedError.fault.line = 2 ∧
    nestedError.fault.column = 2 ∧ nestedError.fault.message = "unexpected 'x = )'" := by
  have hflagged : nestedError.Flagged := by decide +kernel
  obtain ⟨hline, hcolumn, hmessage⟩ := (error_search_exact hflagged).1 _ _ _
    (List.take_append_drop 3 nestedError.nodes).symm (by decide +kernel) (.inr rfl)
  exact ⟨hflagged, hline, hcolumn, hmessage⟩

end Node

end LuaSymbols
