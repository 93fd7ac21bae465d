import Mathlib
import LuaSymbols.Index.Definition
import LuaSymbols.Proofs.Walk.Cursor
import LuaSymbols.Proofs.Walk.Members

/-!
# Chains of names

A `Chain` is what `a.b:c` stands for: names with separators between them. The index knows a
chain by two texts, the last name and what comes before it, and compares uses with definitions
by these. No name holds a separator, so a text has one chain (`Chain.text_injective`), and the
comparison is one of chains that overlooks the last separator (`Chain.matches_iff`). The base of
a use, the label of a target and the owner of a field are made by three recursions, each of
which writes the text of a chain.
-/

namespace LuaSymbols

namespace Node

theorem qualifiedName_of_identifier {n : Node} (h : n.kind = .identifier) :
    n.qualifiedName = n.text := by
  cases n with
  | mk l cs =>
    rw [qualifiedName, if_pos (show l.kind = .identifier from h)]
    rfl

/-- The last name of a chain. -/
def lastName (n : Node) : Node :=
  if n.kind.isMember then n.memberParts?.elim n Prod.snd else n

/-- What a statement assigns to, each with its value. -/
def pairs (n : Node) : List (Node × Node) :=
  match n.kind with
  | .variableDeclaration => n.declarationParts.1.zip n.declarationParts.2
  | .assignmentStatement => n.assignmentParts.1.zip n.assignmentParts.2
  | _ => []

end Node

/-- A name that can be told from the separators around it. -/
@[ext]
structure Name where
  text : String
  nonempty : text ≠ ""
  plain : ∀ c ∈ text.toList, c ≠ '.' ∧ c ≠ ':'
  deriving DecidableEq

inductive Separator where
  | dot
  | colon
  deriving DecidableEq

namespace Separator

def char : Separator → Char
  | dot => '.'
  | colon => ':'

def text : Separator → String
  | dot => "."
  | colon => ":"

/-- The separator of a member access. -/
def of (n : Node) : Separator := if n.kind = .methodIndex then colon else dot

theorem text_of (n : Node) : (of n).text = n.separator := by
  unfold of Node.separator
  split <;> rfl

@[simp]
theorem toList_text (s : Separator) : s.text.toList = [s.char] := by cases s <;> rfl

theorem char_injective : Function.Injective char := by
  intro s s₂ h
  cases s <;> cases s₂ <;> simp_all [char]

theorem char_notMem (s : Separator) (n : Name) : s.char ∉ n.text.toList := by
  intro h
  have hplain := n.plain _ h
  cases s with
  | dot => exact hplain.1 rfl
  | colon => exact hplain.2 rfl

end Separator

/-- A name, or a member of what a chain stands for. -/
inductive Chain where
  | name (n : Name)
  | member (base : Chain) (s : Separator) (n : Name)
  deriving DecidableEq

namespace Chain

def text : Chain → String
  | name n => n.text
  | member base s n => base.text ++ s.text ++ n.text

def names : Chain → List Name
  | name n => [n]
  | member base _ n => base.names ++ [n]

def separators : Chain → List Separator
  | name _ => []
  | member base s _ => base.separators ++ [s]

/-- The last name. -/
def label : Chain → String
  | name n | member _ _ n => n.text

/-- What the last name is taken from. -/
def base? : Chain → Option String
  | name _ => none
  | member base _ _ => some base.text

/-- The member that is reached by some names in turn. -/
def extend (c : Chain) (ns : List Name) : Chain := ns.foldl (member · .dot ·) c

/-- The same names, and the same separators but for the last. -/
def Agrees (c c₂ : Chain) : Prop :=
  c.names = c₂.names ∧ c.separators.dropLast = c₂.separators.dropLast

instance (c c₂ : Chain) : Decidable (c.Agrees c₂) := inferInstanceAs (Decidable (_ ∧ _))

/-- A node that is a name, or a member access whose table is a chain. -/
def Denoted : Chain → Node → Prop
  | name x, n => n.kind = .identifier ∧ n.text = x.text
  | member base s x, n => n.kind.isMember = true ∧ Separator.of n = s ∧
    ∃ p ∈ n.memberParts?, p.2.kind = .identifier ∧ p.2.text = x.text ∧ base.Denoted p.1

def decideDenoted : (c : Chain) → (n : Node) → Decidable (c.Denoted n)
  | name x, n => inferInstanceAs (Decidable (n.kind = .identifier ∧ n.text = x.text))
  | member base s x, n =>
    have := decideDenoted base
    inferInstanceAs (Decidable (n.kind.isMember = true ∧ Separator.of n = s ∧
      ∃ p ∈ n.memberParts?, p.2.kind = .identifier ∧ p.2.text = x.text ∧ base.Denoted p.1))

instance (c : Chain) (n : Node) : Decidable (c.Denoted n) := decideDenoted c n

/-! ## Texts of chains -/

theorem toList_text_member (base : Chain) (s : Separator) (n : Name) :
    (member base s n).text.toList = base.text.toList ++ s.char :: n.text.toList := by
  simp [text]

theorem text_ne_empty (c : Chain) : c.text ≠ "" := by
  cases c with
  | name n => exact n.nonempty
  | member base s n =>
    intro h
    have hlist := toList_text_member base s n
    simp [h] at hlist

/-- Nothing but a name comes behind the last separator. -/
theorem eq_nil_of_cut {l : List Char} {s s₂ : Separator} {n n₂ : Name}
    (h : s.char :: n.text.toList = l ++ s₂.char :: n₂.text.toList) : l = [] := by
  cases l with
  | nil => rfl
  | cons c l =>
    have htail := (List.cons.inj h).2
    exact absurd (by simp [htail]) (s₂.char_notMem n)

/-- A text is cut at its last separator in one way. -/
theorem cut_inj {l l₂ : List Char} {s s₂ : Separator} {n n₂ : Name}
    (h : l ++ s.char :: n.text.toList = l₂ ++ s₂.char :: n₂.text.toList) :
    l = l₂ ∧ s = s₂ ∧ n = n₂ := by
  have hends {s s₂ : Separator} {n n₂ : Name}
      (h : s.char :: n.text.toList = s₂.char :: n₂.text.toList) : s = s₂ ∧ n = n₂ := by
    obtain ⟨hchar, htext⟩ := List.cons.inj h
    exact ⟨Separator.char_injective hchar, Name.ext (String.toList_inj.1 htext)⟩
  rcases List.append_eq_append_iff.1 h with ⟨a, hl, ha⟩ | ⟨a, hl, ha⟩
  · obtain rfl := eq_nil_of_cut ha
    exact ⟨by simp [hl], hends ha⟩
  · obtain rfl := eq_nil_of_cut ha
    exact ⟨by simp [hl], hends ha.symm⟩

theorem name_text_ne (n : Name) (base : Chain) (s : Separator) (n₂ : Name) :
    (name n).text ≠ (member base s n₂).text := by
  intro h
  have hlist := toList_text_member base s n₂
  rw [← h] at hlist
  exact s.char_notMem n (by rw [show n.text.toList = _ from hlist]; simp)

/-- A text has one chain. -/
theorem text_injective : Function.Injective text := by
  intro c c₂ h
  induction c generalizing c₂ with
  | name n =>
    cases c₂ with
    | name n₂ => exact congrArg name (Name.ext h)
    | member base s n₂ => exact absurd h (name_text_ne n base s n₂)
  | member base s n ih =>
    cases c₂ with
    | name n₂ => exact absurd h.symm (name_text_ne n₂ base s n)
    | member base₂ s₂ n₂ =>
      have hlist := congrArg String.toList h
      rw [toList_text_member, toList_text_member] at hlist
      obtain ⟨hbase, rfl, rfl⟩ := cut_inj hlist
      rw [ih (String.toList_inj.1 hbase)]

/-! ## Chains by their names and separators -/

/-- Names and separators make up a chain. -/
theorem ext_iff {c c₂ : Chain} :
    c = c₂ ↔ c.names = c₂.names ∧ c.separators = c₂.separators := by
  constructor
  · rintro rfl
    exact ⟨rfl, rfl⟩
  · rintro ⟨hnames, hseparators⟩
    induction c generalizing c₂ with
    | name n =>
      cases c₂ with
      | name n₂ => exact congrArg name (List.singleton_inj.1 hnames)
      | member base s n₂ => simp [separators] at hseparators
    | member base s n ih =>
      cases c₂ with
      | name n₂ => simp [separators] at hseparators
      | member base₂ s₂ n₂ =>
        obtain ⟨hbase, hname⟩ := List.append_inj' hnames rfl
        obtain ⟨hinner, hlast⟩ := List.append_inj' hseparators rfl
        rw [ih hbase hinner, List.singleton_inj.1 hname, List.singleton_inj.1 hlast]

theorem names_ne_nil (c : Chain) : c.names ≠ [] := by cases c <;> simp [names]

theorem agrees_member {base base₂ : Chain} {s s₂ : Separator} {n n₂ : Name} :
    (member base s n).Agrees (member base₂ s₂ n₂) ↔ n = n₂ ∧ base = base₂ := by
  simp only [Agrees, names, separators, List.dropLast_concat, ext_iff]
  constructor
  · rintro ⟨hnames, hseparators⟩
    obtain ⟨hbase, hname⟩ := List.append_inj' hnames rfl
    exact ⟨List.singleton_inj.1 hname, hbase, hseparators⟩
  · rintro ⟨rfl, hbase, hseparators⟩
    exact ⟨by rw [hbase], hseparators⟩

theorem not_agrees_name_member (n : Name) (base : Chain) (s : Separator) (n₂ : Name) :
    ¬ (name n).Agrees (member base s n₂) ∧ ¬ (member base s n₂).Agrees (name n) := by
  have hnames : (name n).names ≠ (member base s n₂).names := by
    intro h
    simp only [names] at h
    have hlength := congrArg List.length h
    simp [names_ne_nil] at hlength
  exact ⟨fun h => hnames h.1, fun h => hnames h.1.symm⟩

/-- Last names and bases are the same where chains differ in the last separator at most. -/
theorem matches_iff (c c₂ : Chain) :
    c.label = c₂.label ∧ sameBase c.base? c₂.base? = true ↔ c.Agrees c₂ := by
  have hbase (base : Chain) : ¬ ("" = base.text) := fun h => base.text_ne_empty h.symm
  cases c with
  | name n =>
    cases c₂ with
    | name n₂ => simp [label, base?, sameBase, Agrees, names, separators, Name.ext_iff]
    | member base s n₂ =>
      simp [base?, sameBase, hbase, (not_agrees_name_member n base s n₂).1]
  | member base s n =>
    cases c₂ with
    | name n₂ =>
      simp [base?, sameBase, base.text_ne_empty, (not_agrees_name_member n₂ base s n).2]
    | member base₂ s₂ n₂ =>
      simp [agrees_member, label, base?, sameBase, Name.ext_iff, text_injective.eq_iff]

/-! ## Nodes and the chains they denote -/

theorem Denoted.qualifiedName {c : Chain} {n : Node} (h : c.Denoted n) :
    n.qualifiedName = c.text := by
  induction c generalizing n with
  | name x => exact (Node.qualifiedName_of_identifier h.1).trans h.2
  | member base s x ih =>
    obtain ⟨hkind, rfl, p, hparts, -, htext, hbase⟩ := h
    rw [Node.qualifiedName_member hkind hparts, ih hbase, htext, text, Separator.text_of]

theorem Denoted.target? {c : Chain} {n : Node} (h : c.Denoted n) :
    n.target? = some (c.label, c.base?) := by
  cases c with
  | name x => rw [Node.target?, if_pos h.1, h.2, label, base?]
  | member base s x =>
    obtain ⟨hkind, -, ⟨table, tail⟩, hparts, -, htext, hbase⟩ := h
    rw [Node.target?, if_neg (Node.kind_of_isMember hkind).1, if_pos hkind,
      Option.mem_def.1 hparts, label, base?, ← hbase.qualifiedName, ← htext]
    rfl

/-- A chain that something is assigned to owns the fields of its value. -/
theorem Denoted.mem_initialisers {c : Chain} {s t v : Node} (h : c.Denoted t)
    (hpair : (t, v) ∈ s.pairs) : (c.text, v) ∈ s.initialisers := by
  unfold Node.pairs at hpair
  split at hpair <;> rename_i hkind
  · have hname := Node.isIdentifier_of_declarationParts (List.of_mem_zip hpair).1
    have htext : t.text = c.text := by
      rw [← Node.qualifiedName_of_identifier (by simpa [Node.isIdentifier] using hname),
        h.qualifiedName]
    rw [Node.initialisers, hkind, ← htext]
    exact List.mem_map.2 ⟨(t, v), hpair, rfl⟩
  · rw [Node.initialisers, hkind]
    refine List.mem_filterMap.2 ⟨(t, v), hpair, ?_⟩
    show (Walk.targetOwner? t).map (·, v) = some (c.text, v)
    rw [Walk.targetOwner?, h.target?, ← h.qualifiedName]
    rfl
  · cases hpair

/-! ## Members by their names -/

theorem extend_concat (c : Chain) (ns : List Name) (n : Name) :
    c.extend (ns ++ [n]) = member (c.extend ns) .dot n := by
  rw [extend, List.foldl_append]
  rfl

/-- The owner of what is nested in fields is the member that they reach. -/
theorem text_extend (c : Chain) (ns : List Name) (outer : List Node)
    (h : outer.map Node.keyText = ns.map Name.text) :
    outer.foldl Walk.qualify c.text = (c.extend ns).text := by
  induction outer generalizing c ns with
  | nil =>
    rw [List.map_nil, eq_comm, List.map_eq_nil_iff] at h
    rw [h]
    rfl
  | cons f outer ih =>
    obtain ⟨n, ns, rfl, hname, hrest⟩ := List.map_eq_cons_iff.1 h.symm
    have hfield : Walk.qualify c.text f = (member c .dot n).text := by
      rw [Walk.qualify, ← hname]
      rfl
    rw [List.foldl_cons, hfield, ih _ ns hrest.symm]
    rfl

end Chain

namespace Walk

variable (w : Walk)

/-- The first name that the walk reports for the last name of a chain. -/
theorem ownNames_of_denoted {c : Chain} {n : Node} (h : c.Denoted n) :
    ∃ rest, w.ownNames n = ⟨c.label, c.base?, w.range n.lastName⟩ :: rest := by
  cases c with
  | name x =>
    obtain ⟨hkind, htext⟩ := h
    refine ⟨[], ?_⟩
    simp only [ownNames, hkind, Node.lastName, Kind.isMember, htext, Chain.label, Chain.base?]
    rfl
  | member base s x =>
    obtain ⟨hkind, -, ⟨table, tail⟩, hparts, -, htext, hbase⟩ := h
    have hlast : n.lastName = tail := by
      rw [Node.lastName, if_pos hkind, Option.mem_def.1 hparts]
      rfl
    have hnames : w.ownNames n = Trace.occurrences (w.memberEvents n table tail) := by
      have hkinds : n.kind = .dotIndex ∨ n.kind = .methodIndex := by
        cases hk : n.kind <;> simp_all [Kind.isMember]
      rcases hkinds with hk | hk <;> rw [ownNames, hk, Option.mem_def.1 hparts] <;> rfl
    refine ⟨[⟨table.qualifiedName ++ n.separator ++ tail.text, none, w.range tail⟩], ?_⟩
    rw [hnames, hlast, Chain.label, Chain.base?, ← hbase.qualifiedName, ← htext]
    rfl

/-- A field is registered as the member that its names reach. -/
theorem member?_of_names {c : Chain} {x : List Node × Node} (hkey : x.2.isKeyed = true)
    {names : List Name} (h : (x.1 ++ [x.2]).map Node.keyText = names.map Name.text) :
    ∃ a : Assignment, w.member? c.text x = some (.assignment a) ∧
      a.label = (c.extend names).label ∧ a.base = (c.extend names).base? := by
  obtain ⟨outer, f⟩ := x
  obtain ⟨key, hkey⟩ := Option.isSome_iff_exists.1 hkey
  rw [List.map_append] at h
  obtain ⟨ns, last, rfl, houter, hlast⟩ := List.map_eq_append_iff.1 h.symm
  obtain ⟨n, rfl, hname⟩ := List.map_eq_singleton_iff.1 hlast
  have htext : key.text = n.text := by
    rw [hname, Node.keyText, hkey]
    rfl
  refine ⟨_, by rw [member?, hkey, Option.map_some], ?_, ?_⟩
  · rw [Chain.extend_concat, Chain.label]
    exact htext
  · rw [Chain.extend_concat, Chain.base?, ← Chain.text_extend c ns outer houter.symm]

theorem targetEvents_subset_events {s t : Node} (hkind : s.kind = .assignmentStatement)
    (ht : t ∈ s.assignmentParts.1) (depth : Nat) :
    w.targetEvents t ⊆ w.events (depth + 1) s := by
  intro e he
  refine (w.events_perm depth s).mem_iff.2 (List.mem_append_left _ ?_)
  simp only [ownEvents, hkind]
  exact List.mem_append_left _ (List.mem_flatMap.2 ⟨t, ht, he⟩)

/-- **A use matches a definition just where both denote one chain.** Let a chain be used, and
let `o` be the first name that the walk reports for its last one. Whatever target a chain is
assigned at, and whatever field is reached by names from a table that is assigned to a chain,
the walk of the statement registers it, and `o` matches what is registered if and only if the
chain that is used and the one that is defined have the same names, and the same separators
but for the last. -/
theorem use_matches_site_iff {use : Node} {r : Chain} (huse : r.Denoted use) (depth : Nat) :
    ∃ o rest, Trace.occurrences (w.events (depth + 1) use) =
        use.order.flatMap (fun n => Trace.occurrences (w.events depth n)) ++ o :: rest ∧
      o.range = w.range use.lastName ∧
      (∀ s t c, s.kind = .assignmentStatement → t ∈ s.assignmentParts.1 → Chain.Denoted c t →
        ∃ a, .assignment a ∈ w.events (depth + 1) s ∧ t.target? = some (a.label, a.base) ∧
          (o.name = a.label ∧ sameBase o.base a.base = true ↔ r.Agrees c)) ∧
      (∀ s t v c, (t, v) ∈ s.pairs → Chain.Denoted c t → ∀ x ∈ v.members Node.isKeyed,
        ∀ names : List Name, (x.1 ++ [x.2]).map Node.keyText = names.map Name.text →
        ∃ a, .assignment a ∈ w.events (depth + 1) s ∧
          w.member? t.qualifiedName x = some (.assignment a) ∧
          (o.name = a.label ∧ sameBase o.base a.base = true ↔ r.Agrees (c.extend names))) := by
  obtain ⟨rest, hnames⟩ := w.ownNames_of_denoted huse
  refine ⟨_, rest, by rw [occurrences_events, hnames], rfl, ?_, ?_⟩
  · intro s t c hkind ht hc
    refine ⟨⟨c.label, c.base?, w.range t, w.uri⟩, ?_, hc.target?, r.matches_iff c⟩
    exact w.targetEvents_subset_events hkind ht depth (by simp [targetEvents, hc.target?])
  · intro s t v c hpair hc x hx names hx'
    have hkeyed := (List.mem_filter.1 hx).2
    simp only [Node.throughout, Bool.and_eq_true] at hkeyed
    obtain ⟨a, ha, hlabel, hbase⟩ := w.member?_of_names (c := c) hkeyed.2 hx'
    refine ⟨a, ?_, by rw [hc.qualifiedName, ha], ?_⟩
    · refine (w.tableEvents_infix_events (hc.mem_initialisers hpair) depth).subset ?_
      rw [tableEvents_eq]
      exact List.mem_filterMap.2 ⟨x, hx, ha⟩
    · rw [hlabel, hbase]
      exact r.matches_iff (c.extend names)

/-- A method is called where a field of a nested table is defined. -/
def chained : String := "a.b = \x7bc = \x7bd = 1\x7d\x7d a.b.c:d()"

/-- The call of `a.b.c:d` matches the field `d` in the field `c` of the table of `a.b`. -/
theorem use_matches_site_iff_chained :
    ∃ root, Lua.parse? chained = some root ∧ ∃ use ∈ root.nodes, ∃ s ∈ root.nodes,
      ∃ r c : Chain, r.Denoted use ∧ r.text = "a.b.c:d" ∧ c.text = "a.b" ∧
        ∃ t v, (t, v) ∈ s.pairs ∧ c.Denoted t ∧
        ∃ x ∈ v.members Node.isKeyed, (x.1 ++ [x.2]).map Node.keyText = ["c", "d"] ∧
        ∀ w : Walk, ∃ o ∈ Trace.occurrences (w.events depthLimit use),
          ∃ a, .assignment a ∈ w.events depthLimit s ∧
            w.member? t.qualifiedName x = some (.assignment a) ∧
            o.name = a.label ∧ sameBase o.base a.base = true := by
  let na : Name := ⟨"a", by decide, by simp⟩
  let nb : Name := ⟨"b", by decide, by simp⟩
  let nc : Name := ⟨"c", by decide, by simp⟩
  let nd : Name := ⟨"d", by decide, by simp⟩
  let target : Chain := .member (.name na) .dot nb
  let called : Chain := .member (.member target .dot nc) .colon nd
  have hparse : (Lua.parse? chained).any (fun root =>
      root.nodes.any (fun use => decide (called.Denoted use)) &&
      root.nodes.any fun s => s.pairs.any fun p => decide (target.Denoted p.1) &&
        (p.2.members Node.isKeyed).any fun x =>
          decide ((x.1 ++ [x.2]).map Node.keyText = ["c", "d"])) = true := by
    decide +kernel
  obtain ⟨root, hroot, hfound⟩ := (Option.any_eq_true _ _).1 hparse
  obtain ⟨hcalled, hassigned⟩ := Bool.and_eq_true_iff.1 hfound
  obtain ⟨use, huse, hr⟩ := List.any_eq_true.1 hcalled
  obtain ⟨s, hs, hpairs⟩ := List.any_eq_true.1 hassigned
  obtain ⟨⟨t, v⟩, hpair, hfields⟩ := List.any_eq_true.1 hpairs
  obtain ⟨hc, hfields⟩ := Bool.and_eq_true_iff.1 hfields
  obtain ⟨x, hx, hnames⟩ := List.any_eq_true.1 hfields
  refine ⟨root, hroot, use, huse, s, hs, called, target, of_decide_eq_true hr,
    by decide +kernel, by decide +kernel, t, v, hpair, of_decide_eq_true hc, x, hx,
    of_decide_eq_true hnames, fun w => ?_⟩
  obtain ⟨o, rest, ho, -, -, hkeys⟩ := w.use_matches_site_iff (of_decide_eq_true hr) 449
  obtain ⟨a, ha, hmember, hiff⟩ := hkeys s t v target hpair (of_decide_eq_true hc) x hx [nc, nd]
    (of_decide_eq_true hnames)
  exact ⟨o, by simp [depthLimit, ho], a, ha, hmember, hiff.2 (by decide +kernel)⟩

end Walk

end LuaSymbols
