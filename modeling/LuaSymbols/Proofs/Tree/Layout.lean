import Mathlib
import LuaSymbols.Proofs.Text.Counting
import LuaSymbols.Proofs.Tree.Shape

/-!
# Trees laid out over a text

Places are ordered line by line (`Point`, `Position`), and a source keeps the order when it
counts characters instead of bytes (`Source.position_mono`). A tree is `LaidOut` when nodes
lie within their parents, and siblings one behind the other. What holds of a node and those
below it, and of the nodes of two siblings, then holds along the whole list of nodes
(`Node.pairwise_nodes`); so that list is in the order in which its nodes start.
-/

namespace LuaSymbols

/-! ## The order of places -/

instance : LinearOrder Point :=
  LinearOrder.lift' (fun p : Point => toLex (p.row, p.column)) fun ⟨_, _⟩ ⟨_, _⟩ h => by
    cases toLex_inj.1 h
    rfl

instance : LinearOrder Position :=
  LinearOrder.lift' (fun p : Position => toLex (p.line, p.character)) fun ⟨_, _⟩ ⟨_, _⟩ h => by
    cases toLex_inj.1 h
    rfl

theorem Point.le_iff {p q : Point} :
    p ≤ q ↔ p.row < q.row ∨ p.row = q.row ∧ p.column ≤ q.column :=
  Prod.Lex.toLex_le_toLex

theorem Position.le_iff {p q : Position} :
    p ≤ q ↔ p.line < q.line ∨ p.line = q.line ∧ p.character ≤ q.character :=
  Prod.Lex.toLex_le_toLex

namespace Source

/-- Counting characters instead of bytes keeps the order of places. -/
theorem position_mono (s : Source) : Monotone s.position := by
  intro p q h
  rw [Position.le_iff]
  rcases Point.le_iff.1 h with hrow | ⟨hrow, hcolumn⟩
  · exact .inl hrow
  · refine .inr ⟨hrow, ?_⟩
    rw [position, position, hrow]
    exact s.character_mono q.row hcolumn

end Source

namespace Node

/-! ## Layout -/

/-- The children of a node lie within it, one behind the other. -/
@[mk_iff]
structure Laid (n : Node) : Prop where
  forward : n.span.start ≤ n.span.stop
  within : ∀ c ∈ n.children, n.span.start ≤ c.span.start ∧ c.span.stop ≤ n.span.stop
  apart : n.children.Pairwise fun a b => a.span.stop ≤ b.span.start

instance (n : Node) : Decidable n.Laid := decidable_of_iff' _ (laid_iff n)

def LaidOut (n : Node) : Prop := ∀ m ∈ n.nodes, m.Laid

instance (n : Node) : Decidable n.LaidOut :=
  inferInstanceAs (Decidable (∀ m ∈ n.nodes, _))

theorem LaidOut.laid {n : Node} (h : n.LaidOut) : n.Laid := h n n.self_mem_nodes

theorem LaidOut.of_mem {n m : Node} (h : n.LaidOut) (hm : m ∈ n.nodes) : m.LaidOut :=
  fun m' hm' => h m' ((nodes_sublist hm).subset hm')

theorem LaidOut.child {n c : Node} (h : n.LaidOut) (hc : c ∈ n.children) : c.LaidOut :=
  h.of_mem (Below.of_child hc).mem

theorem LaidOut.within {n m : Node} (h : n.LaidOut) (hm : m ∈ n.nodes) :
    n.span.start ≤ m.span.start ∧ m.span.stop ≤ n.span.stop := by
  induction n using induction with
  | h n ih =>
    rcases mem_nodes.1 hm with rfl | ⟨c, hc, hm⟩
    · exact ⟨le_rfl, le_rfl⟩
    · obtain ⟨hstart, hstop⟩ := h.laid.within c hc
      obtain ⟨hstart₂, hstop₂⟩ := ih c hc (h.child hc) hm
      exact ⟨hstart.trans hstart₂, hstop₂.trans hstop⟩

/-- What relates a node to those below it, and the nodes of a child to those of a later one,
relates each node to all that come after it. -/
theorem pairwise_nodes {R : Node → Node → Prop} {n : Node}
    (hbelow : ∀ a ∈ n.nodes, ∀ b, a.Below b → R a b)
    (hbeside : ∀ m ∈ n.nodes, m.children.Pairwise fun c d => ∀ a ∈ c.nodes, ∀ b ∈ d.nodes, R a b) :
    n.nodes.Pairwise R := by
  induction n using induction with
  | h n ih =>
    rw [nodes_eq, List.pairwise_cons, List.pairwise_flatMap]
    refine ⟨fun b hb => ?_, fun c hc => ?_, hbeside n n.self_mem_nodes⟩
    · exact hbelow n n.self_mem_nodes b (List.mem_flatMap.1 hb)
    · have hsubset := (Below.of_child hc).nodes_subset
      exact ih c hc (fun a ha => hbelow a (hsubset ha)) fun m hm => hbeside m (hsubset hm)

/-- The nodes of a child end before those of a later one start. -/
theorem LaidOut.beside {n : Node} (h : n.LaidOut) :
    n.children.Pairwise fun c d => ∀ a ∈ c.nodes, ∀ b ∈ d.nodes, a.span.stop ≤ b.span.start := by
  refine h.laid.apart.imp_of_mem fun {c d} hc hd hle a ha b hb => ?_
  calc a.span.stop
      ≤ c.span.stop := ((h.child hc).within ha).2
    _ ≤ d.span.start := hle
    _ ≤ b.span.start := ((h.child hd).within hb).1

/-- The nodes of a tree are listed in the order in which they start. -/
theorem LaidOut.pairwise_start {n : Node} (h : n.LaidOut) :
    n.nodes.Pairwise fun a b => a.span.start ≤ b.span.start := by
  refine pairwise_nodes (fun a ha b hb => ?_) fun m hm => ?_
  · exact ((h.of_mem ha).within hb.mem).1
  · refine (h.of_mem hm).beside.imp_of_mem fun {c d} hc _ hle a ha b hb => ?_
    exact ((h.of_mem hm).child hc a ha).forward.trans (hle a ha b hb)

end Node

end LuaSymbols
