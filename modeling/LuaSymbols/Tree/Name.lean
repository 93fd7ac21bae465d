import LuaSymbols.Tree

/-!
# Names in a tree

`Node.qualifiedName` writes a nameable expression, `a.b:c`, as text;
`Node.target?` gives the label and the base under which an assignment to it is
known. Whatever has no name contributes the empty text.
-/

namespace LuaSymbols.Node

/-- The first and the last part of a node that has at least two. -/
def outerParts? (n : Node) : Option (Node × Node) :=
  match n.parts with
  | first :: second :: rest => some (first, (second :: rest).getLast (by simp))
  | _ => none

def memberTail? (n : Node) : Option Node :=
  match n.child? .field with
  | some f => some f
  | none => n.child? .method

/-- Table and field of a member access, by their places or else by their order. -/
def memberParts? (n : Node) : Option (Node × Node) :=
  match n.child? .table, n.memberTail? with
  | some table, some tail => some (table, tail)
  | _, _ => n.outerParts?

def separator (n : Node) : String := if n.kind = .methodIndex then ":" else "."

/-- Singles out the child that is the table of a member access: the one in its
place, or the first part where a place is empty. -/
def isTableOf (n child : Node) : Bool :=
  if (n.child? .table).isSome && n.memberTail?.isSome then child.label.field = some .table
  else child.isPart

mutual
/-- The text of a chain of names with its separators, empty for anything else. -/
def qualifiedName : Node → String
  | mk l cs =>
    if l.kind = .identifier then l.text
    else if l.kind.isMember then
      match (mk l cs).memberParts? with
      | some (_, tail) =>
        firstName (isTableOf (mk l cs)) cs ++ (mk l cs).separator ++ tail.text
      | none => ""
    else ""

/-- The name of the first node that a test singles out. -/
def firstName (p : Node → Bool) : List Node → String
  | [] => ""
  | c :: cs => if p c then qualifiedName c else firstName p cs
end

theorem firstName_eq (p : Node → Bool) (cs : List Node) :
    firstName p cs = (cs.find? p).elim "" qualifiedName := by
  induction cs with
  | nil => simp [firstName]
  | cons c cs ih =>
    rw [firstName, List.find?_cons]
    cases p c <;> simp [ih]

theorem find?_isPart {n first second : Node} {rest : List Node}
    (h : n.parts = first :: second :: rest) : n.children.find? isPart = some first := by
  rw [← List.head?_filter, ← parts, h, List.head?_cons]

theorem find?_isTableOf {n table tail : Node} (h : n.memberParts? = some (table, tail)) :
    n.children.find? n.isTableOf = some table := by
  unfold memberParts? at h
  split at h
  · next t f ht hf =>
    have e : t = table := congrArg Prod.fst (Option.some.inj h)
    have p : n.isTableOf = fun c => decide (c.label.field = some .table) := by
      funext c; simp [isTableOf, ht, hf]
    rw [p, ← e]
    exact ht
  · next hne =>
    have p : n.isTableOf = isPart := by
      funext c
      rw [isTableOf, if_neg]
      intro both
      obtain ⟨t, ht⟩ := Option.isSome_iff_exists.1 (Bool.and_eq_true_iff.1 both).1
      obtain ⟨f, hf⟩ := Option.isSome_iff_exists.1 (Bool.and_eq_true_iff.1 both).2
      exact hne t f ht hf
    rw [p]
    unfold outerParts? at h
    split at h
    · next first second rest hp =>
      have e : first = table := congrArg Prod.fst (Option.some.inj h)
      rw [find?_isPart hp, e]
    · cases h

/-- A member access is named by its table and its field. -/
theorem qualifiedName_member {n table tail : Node} (hk : n.kind.isMember = true)
    (h : n.memberParts? = some (table, tail)) :
    n.qualifiedName = table.qualifiedName ++ n.separator ++ tail.text := by
  cases n with
  | mk l cs =>
    have hk' : l.kind.isMember = true := hk
    have hi : l.kind ≠ .identifier := by intro e; simp [e, Kind.isMember] at hk'
    have hf : cs.find? (isTableOf (mk l cs)) = some table := find?_isTableOf h
    rw [qualifiedName, if_neg hi, if_pos hk', h]
    simp [firstName_eq, hf]

/-- Label and base of an assignable expression that has a name. A plain name has
no base. -/
def target? (n : Node) : Option (String × Option String) :=
  if n.kind = .identifier then some (n.text, none)
  else if n.kind.isMember then
    n.memberParts?.map fun (table, tail) => (tail.text, some table.qualifiedName)
  else none

/-- The text between the delimiters of a string. -/
def stringValue? (n : Node) : Option String :=
  if n.kind = .string then
    some ((n.namedChildren.find? (·.kind = .stringContent)).elim "" text)
  else none

end LuaSymbols.Node
