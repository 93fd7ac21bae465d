import Mathlib
import LuaSymbols.Index.Definition
import LuaSymbols.Proofs.Text.Columns
import LuaSymbols.Proofs.Tree.Tokens
import LuaSymbols.Proofs.Walk.Coverage

/-!
# The name under the cursor

The walk reports each tail of a member access first under its base and right behind that in
full (`Walk.Spells`), so a search that takes the first occurrence at a place never meets the
full name first. Where names on a line keep apart, every column of a name is in the range of
that name alone, and the search finds it (`cursor_finds_token`).
-/

namespace LuaSymbols

/-! ## What is reported, in order -/

namespace Trace

/-- The names that a trace reports. -/
def occurrences (t : Trace) : List Occurrence := t.bindings.identifiers

@[simp]
theorem occurrences_nil : occurrences [] = [] := rfl

@[simp]
theorem occurrences_append (t t₂ : Trace) :
    occurrences (t ++ t₂) = t.occurrences ++ occurrences t₂ :=
  List.filterMap_append

theorem occurrences_flatMap {α : Type} (l : List α) (f : α → Trace) :
    occurrences (l.flatMap f) = l.flatMap fun a => occurrences (f a) := by
  induction l with
  | nil => rfl
  | cons a l ih => rw [List.flatMap_cons, occurrences_append, ih, List.flatMap_cons]

theorem occurrences_elim {α : Type} (o : Option α) (f : α → Trace) :
    occurrences (o.elim [] f) = o.toList.flatMap fun a => occurrences (f a) := by
  cases o <;> simp

/-- Declarations report no names. -/
theorem occurrences_of_declares {t : Trace} (h : ∀ e ∈ t, e.declares = true) :
    t.occurrences = [] := by
  refine List.filterMap_eq_nil_iff.2 fun e he => ?_
  have hdeclares := h e he
  cases e with
  | identifier | includeCall | tooDeep => cases hdeclares
  | localName | parameter | assignment | function | outline => rfl

end Trace

namespace Walk

variable (w : Walk)

/-- The names that the walk reports at a node itself. -/
def ownNames (n : Node) : List Occurrence :=
  match n.kind with
  | .identifier => [⟨n.text, none, w.range n⟩]
  | .dotIndex | .methodIndex =>
    n.memberParts?.elim [] fun (table, tail) => Trace.occurrences (w.memberEvents n table tail)
  | _ => []

section
variable (visit : Node → List Event)

theorem occurrences_pairEvents {owner? : Node → Option String} {before : Node → List Event}
    (hbefore : ∀ n, ∀ e ∈ before n, e.declares = true) (targets values : List Node) :
    Trace.occurrences (w.pairEvents visit owner? before targets values) =
      (Node.inTurn targets values).flatMap fun c => Trace.occurrences (visit c) := by
  have hfields (t v : Node) :
      Trace.occurrences ((owner? t).elim [] (tableEvents w · v)) = [] := by
    refine Trace.occurrences_of_declares fun e he => ?_
    exact w.declares_pairedFields owner? [t] [v] e (by simpa [pairedFields] using he)
  induction targets, values using Node.inTurn.induct with
  | case1 values => rw [pairEvents, Trace.occurrences_flatMap, Node.inTurn]
  | case2 t targets ih =>
    simp only [pairEvents, Trace.occurrences_append, Node.inTurn, List.flatMap_cons, ih,
      Trace.occurrences_of_declares (hbefore t), List.nil_append]
  | case3 t targets v values ih =>
    simp only [pairEvents, Trace.occurrences_append, Node.inTurn, List.flatMap_cons, ih, hfields,
      Trace.occurrences_of_declares (hbefore t), List.nil_append, List.append_assoc]

theorem occurrences_parameterEvents (n : Node) :
    Trace.occurrences (w.parameterEvents visit n) = Trace.occurrences (visit n) := by
  unfold parameterEvents
  split <;> rfl

theorem occurrences_function (n : Node) (name? parameters? : Option Node) (body : List Node) :
    Trace.occurrences (name?.elim [] (fun name => w.functionEvents n name ++ visit name) ++
      parameters?.elim [] (fun ps => ps.parts.flatMap (w.parameterEvents visit)) ++
      body.flatMap visit) =
      (name?.toList ++ parameters?.elim [] Node.parts ++ body).flatMap
        fun c => Trace.occurrences (visit c) := by
  have hname (name : Node) : Trace.occurrences (w.functionEvents n name ++ visit name) =
      Trace.occurrences (visit name) := by
    rw [Trace.occurrences_append, Trace.occurrences_of_declares (w.declares_functionEvents n name),
      List.nil_append]
  have hparameters : Trace.occurrences (parameters?.elim []
      (fun ps => ps.parts.flatMap (w.parameterEvents visit))) =
      (parameters?.elim [] Node.parts).flatMap fun c => Trace.occurrences (visit c) := by
    cases parameters? with
    | none => rfl
    | some ps =>
      simp only [Option.elim_some, Trace.occurrences_flatMap, occurrences_parameterEvents]
  simp only [Trace.occurrences_append, hparameters, Trace.occurrences_elim, hname,
    Trace.occurrences_flatMap, List.flatMap_append]

theorem occurrences_includeEvents (callee arguments : Option Node) :
    Trace.occurrences (w.includeEvents callee arguments) = [] := by
  unfold includeEvents
  split
  · split <;> rfl
  · rfl

end

/-- The names that one step of the walk reports: those of the nodes that it goes on to, in
its order, then its own. -/
theorem occurrences_events (depth : Nat) (n : Node) :
    Trace.occurrences (w.events (depth + 1) n) =
      n.order.flatMap (fun c => Trace.occurrences (w.events depth c)) ++ w.ownNames n := by
  have hlocals (ns : List Node) := Trace.occurrences_of_declares (w.declares_locals ns)
  conv_lhs => unfold events
  unfold ownNames Node.order Node.next
  split <;> rename_i hkind <;> try simp only [hkind]
  · rfl
  · cases n.memberParts? with
    | none => rfl
    | some parts => simp
  · cases n.memberParts? with
    | none => rfl
    | some parts => simp
  · rw [Trace.occurrences_append, hlocals, List.nil_append, List.append_nil]
    exact w.occurrences_pairEvents _ (by simp) _ _
  · rw [List.append_nil]
    exact w.occurrences_pairEvents _ w.declares_targetEvents _ _
  · rw [List.append_nil]
    exact w.occurrences_function _ n _ _ _
  · rw [List.append_nil]
    exact w.occurrences_function _ n _ _ _
  · simp only [Trace.occurrences_append, occurrences_includeEvents, Trace.occurrences_elim,
      List.nil_append, List.append_nil, List.flatMap_append]
  · rw [Trace.occurrences_append, hlocals, List.nil_append, List.append_nil,
      Trace.occurrences_flatMap]
  · rw [Trace.occurrences_append, hlocals, List.nil_append, List.append_nil,
      Trace.occurrences_flatMap]
  · split <;> rw [Trace.occurrences_flatMap, List.append_nil]

/-! ## Tails come under their base first -/

/-- The occurrence of a name under its base. -/
def occurrence (t : Node × Option String) : Occurrence := ⟨t.1.text, t.2, w.range t.1⟩

/-- Occurrences that report some of the names of a tree, each tail under its base and right
behind that in full. -/
inductive Spells (tokens : List (Node × Option String)) : List Occurrence → Prop where
  | nil : Spells tokens []
  | plain {n : Node} {os : List Occurrence} (h : (n, none) ∈ tokens) (hos : Spells tokens os) :
    Spells tokens (w.occurrence (n, none) :: os)
  | tail {n : Node} {base full : String} {os : List Occurrence} (h : (n, some base) ∈ tokens)
    (hos : Spells tokens os) :
    Spells tokens (w.occurrence (n, some base) :: ⟨full, none, w.range n⟩ :: os)

variable {w}

theorem Spells.mono {tokens tokens₂ : List (Node × Option String)} {os : List Occurrence}
    (h : w.Spells tokens os) (hsub : tokens ⊆ tokens₂) : w.Spells tokens₂ os := by
  induction h with
  | nil => exact .nil
  | plain hn _ ih => exact .plain (hsub hn) ih
  | tail hn _ ih => exact .tail (hsub hn) ih

theorem Spells.append {tokens : List (Node × Option String)} {os os₂ : List Occurrence}
    (h : w.Spells tokens os) (h₂ : w.Spells tokens os₂) : w.Spells tokens (os ++ os₂) := by
  induction h with
  | nil => exact h₂
  | plain hn _ ih => exact .plain hn ih
  | tail hn _ ih => exact .tail hn ih

theorem Spells.flatMap {tokens : List (Node × Option String)} {ns : List Node}
    {f : Node → List Occurrence} (h : ∀ c ∈ ns, w.Spells tokens (f c)) :
    w.Spells tokens (ns.flatMap f) := by
  induction ns with
  | nil => exact .nil
  | cons c ns ih =>
    rw [List.flatMap_cons]
    exact (h c List.mem_cons_self).append (ih fun c' hc' => h c' (List.mem_cons_of_mem c hc'))

/-- A search by place finds a name under its base, if that is the only name at the place. -/
theorem Spells.find?_eq {tokens : List (Node × Option String)} {os : List Occurrence}
    (h : w.Spells tokens os) {p : Range → Bool} {t : Node × Option String}
    (honly : ∀ t' ∈ tokens, p (w.range t'.1) = true → t' = t)
    (hfound : ∃ o ∈ os, p o.range = true) : os.find? (p ·.range) = some (w.occurrence t) := by
  induction h with
  | nil =>
    obtain ⟨o, ho, -⟩ := hfound
    cases ho
  | @plain n os hn _ ih =>
    cases hp : p (w.range n) with
    | true => rw [← honly _ hn hp, List.find?_cons_of_pos (by simpa [occurrence] using hp)]
    | false =>
      rw [List.find?_cons_of_neg (by simp [occurrence, hp])]
      obtain ⟨o, ho, hcontains⟩ := hfound
      refine ih ⟨o, ?_, hcontains⟩
      rcases List.mem_cons.1 ho with rfl | ho
      · exact absurd hcontains (by simp [occurrence, hp])
      · exact ho
  | @tail n base full os hn _ ih =>
    cases hp : p (w.range n) with
    | true => rw [← honly _ hn hp, List.find?_cons_of_pos (by simpa [occurrence] using hp)]
    | false =>
      rw [List.find?_cons_of_neg (by simp [occurrence, hp]),
        List.find?_cons_of_neg (by simp [hp])]
      obtain ⟨o, ho, hcontains⟩ := hfound
      refine ih ⟨o, ?_, hcontains⟩
      simp only [List.mem_cons] at ho
      rcases ho with rfl | rfl | ho
      · exact absurd hcontains (by simp [occurrence, hp])
      · exact absurd hcontains (by simp [hp])
      · exact ho

variable (w)

theorem spells_ownNames {n : Node} (hs : n.Shaped) : w.Spells (n.tokens none) (w.ownNames n) := by
  have hmember (h : n.kind.isMember = true) : w.Spells (n.tokens none)
      (n.memberParts?.elim [] fun (table, tail) =>
        Trace.occurrences (w.memberEvents n table tail)) := by
    obtain ⟨table, tail, -, htail, hname, hparts⟩ := hs.formed.memberParts h
    rw [hparts]
    exact .tail (Node.tail_mem_tokens h htail hname hparts) .nil
  unfold ownNames
  split <;> rename_i hkind
  · refine .plain ?_ .nil
    rw [Node.tokens_eq, if_pos hkind]
    exact List.mem_singleton_self _
  · exact hmember (by rw [hkind]; rfl)
  · exact hmember (by rw [hkind]; rfl)
  · exact .nil

/-- The walk reports names of the tree, and each tail under its base first. -/
theorem spells_events (depth : Nat) {n : Node} (hs : n.Shaped) :
    w.Spells (n.tokens none) (Trace.occurrences (w.events depth n)) := by
  induction depth generalizing n with
  | zero => exact .nil
  | succ depth ih =>
    rw [occurrences_events]
    refine (Spells.flatMap fun c hc => ?_).append (w.spells_ownNames hs)
    have hnext := Node.mem_next_of_mem_order hc
    exact (ih (hs.below (Node.below_of_next hnext))).mono (Node.tokens_subset_of_next hs hnext)

/-- Every name is reported at its place, unless the walk goes too deep. -/
theorem exists_occurrence {depth : Nat} {n : Node} (hs : n.Shaped)
    (h : Event.tooDeep ∉ w.events depth n) {t : Node × Option String} (ht : t ∈ n.tokens none) :
    ∃ o ∈ Trace.occurrences (w.events depth n), o.range = w.range t.1 := by
  have hname : (t.1, t.2.isSome) ∈ n.names false := by
    rw [show false = (none : Option String).isSome from rfl, Node.names_eq_tokens hs]
    exact List.mem_map_of_mem ht
  have hplaces : ((Trace.occurrences (w.events depth n)).map (·.range)).Perm
      ((n.names false).flatMap w.places) := by
    rw [Trace.occurrences, Trace.identifiers_places]
    exact Multiset.coe_eq_coe.1 (congrArg Prod.fst (w.tally_events hs h))
  have hplace : w.range t.1 ∈ (n.names false).flatMap w.places := by
    refine List.mem_flatMap.2 ⟨_, hname, ?_⟩
    cases t.2.isSome <;> simp [places]
  exact List.mem_map.1 (hplaces.mem_iff.2 hplace)

end Walk

/-! ## Columns of names -/

namespace Node

/-- A node lies on one line of a text, from one of its characters to another. -/
def OnLine (n : Node) (text : String) (row first last : Nat) : Prop :=
  ∃ line, (text.toList.splitOn '\n')[row]? = some line ∧ first ≤ line.length ∧
    last ≤ line.length ∧ n.span = ⟨⟨row, byteColumn line first⟩, ⟨row, byteColumn line last⟩⟩

/-- Nodes on one line have something between them. -/
def Apart (a b : Node) : Prop :=
  a.span.start.row = b.span.start.row →
    a.span.stop.column < b.span.start.column ∨ b.span.stop.column < a.span.start.column

instance : Std.Symm fun t t₂ : Node × Option String => t.1.Apart t₂.1 :=
  ⟨fun _ _ h hrow => (h hrow.symm).symm⟩

theorem OnLine.range_eq {n : Node} {uri text : String} {keywords : List String}
    {row first last : Nat} (h : n.OnLine text row first last) :
    Walk.range ⟨uri, .ofText text, keywords⟩ n = ⟨⟨row, first⟩, ⟨row, last⟩⟩ := by
  obtain ⟨line, hline, hfirst, hlast, hspan⟩ := h
  simp only [Walk.range, Source.range, Source.position, hspan,
    Source.character_byteColumn hline hfirst, Source.character_byteColumn hline hlast]

/-- No position is in the ranges of two nodes that are apart. -/
theorem OnLine.disjoint {a b : Node} {text : String} {row row₂ first first₂ last last₂ : Nat}
    (ha : a.OnLine text row first last) (hb : b.OnLine text row₂ first₂ last₂) (h : a.Apart b)
    {line character : Int}
    (hin : Range.contains ⟨⟨row, first⟩, ⟨row, last⟩⟩ line character = true)
    (hin₂ : Range.contains ⟨⟨row₂, first₂⟩, ⟨row₂, last₂⟩⟩ line character = true) : False := by
  simp only [Range.contains, Bool.and_eq_true, decide_eq_true_eq] at hin hin₂
  obtain rfl : row = row₂ := by omega
  obtain ⟨line, hline, -, -, hspan⟩ := ha
  obtain ⟨line₂, hline₂, -, -, hspan₂⟩ := hb
  obtain rfl : line = line₂ := Option.some.inj (hline.symm.trans hline₂)
  rw [Apart, hspan, hspan₂] at h
  rcases h rfl with hlt | hlt
  · have hle := byteColumn_mono line (show first₂ ≤ last by omega)
    exact absurd hlt (Nat.not_lt.2 hle)
  · have hle := byteColumn_mono line (show first ≤ last₂ by omega)
    exact absurd hlt (Nat.not_lt.2 hle)

end Node

namespace Walk

/-- **The cursor finds the name it is on.** Let every name of a shaped tree lie on one line,
from one character of the text to another, and let names on one line be apart. Then at every
column of a name, both ends included, the record of the walk has the occurrence of that name
under its base, and no other. This is so at any depth that the walk may go to unless it has to
go deeper, and there is always a depth at which it has not. -/
theorem cursor_finds_token {root : Node} {text : String} (uri : String) (keywords : List String)
    (hs : root.Shaped)
    (hlines : ∀ t ∈ root.tokens none, ∃ row first last, t.1.OnLine text row first last)
    (hapart : (root.tokens none).Pairwise fun t t₂ => t.1.Apart t₂.1) :
    let w : Walk := ⟨uri, .ofText text, keywords⟩
    Trace.isComplete (w.events root.nodes.length root) = true ∧
    ∀ depth, Trace.isComplete (w.events depth root) = true →
      ∀ record : FileRecord, ∀ n base, (n, base) ∈ root.tokens none →
      ∀ row first last, n.OnLine text row first last →
      ∀ column, first ≤ column → column ≤ last →
        (record.withBindings (Trace.bindings (w.events depth root))).occurrenceAt? row column =
          some ⟨n.text, base, ⟨⟨row, first⟩, ⟨row, last⟩⟩⟩ := by
  intro w
  refine ⟨by simp [Trace.isComplete, w.tooDeep_notMem_events le_rfl], ?_⟩
  intro depth hcomplete record n base hn row first last hline column hfirst hlast
  have hdeep : Event.tooDeep ∉ w.events depth root := by simpa [Trace.isComplete] using hcomplete
  have hrange : w.range n = ⟨⟨row, first⟩, ⟨row, last⟩⟩ := hline.range_eq
  have hin : Range.contains ⟨⟨row, first⟩, ⟨row, last⟩⟩ row column = true := by
    simp [Range.contains, hfirst, hlast]
  have honly : ∀ t ∈ root.tokens none, (w.range t.1).contains row column = true →
      t = (n, base) := by
    intro t ht hcontains
    by_contra hne
    obtain ⟨row₂, first₂, last₂, hline₂⟩ := hlines t ht
    rw [hline₂.range_eq] at hcontains
    exact hline₂.disjoint hline (hapart.forall ht hn hne) hcontains hin
  have hfound : ∃ o ∈ Trace.occurrences (w.events depth root),
      o.range.contains row column = true := by
    obtain ⟨o, ho, hplace⟩ := w.exists_occurrence hs hdeep hn
    exact ⟨o, ho, by rw [hplace, hrange, hin]⟩
  rw [← hrange]
  exact (w.spells_events depth hs).find?_eq (p := fun r => r.contains row column) honly hfound

/-- A text with a member access behind a character of two bytes. -/
def accented : String := "x = 'é', t.f"

theorem parse?_accented : ∃ root, Lua.parse? accented = some root ∧ root.Shaped ∧
    (root.tokens none).map (fun t => (t.1.text, t.2, t.1.span)) =
      [("x", none, ⟨⟨0, 0⟩, ⟨0, 1⟩⟩), ("t", none, ⟨⟨0, 10⟩, ⟨0, 11⟩⟩),
        ("f", some "t", ⟨⟨0, 12⟩, ⟨0, 13⟩⟩)] := by
  have hparse : (Lua.parse? accented).any (fun root => decide (root.Shaped ∧
      (root.tokens none).map (fun t => (t.1.text, t.2, t.1.span)) =
        [("x", none, ⟨⟨0, 0⟩, ⟨0, 1⟩⟩), ("t", none, ⟨⟨0, 10⟩, ⟨0, 11⟩⟩),
          ("f", some "t", ⟨⟨0, 12⟩, ⟨0, 13⟩⟩)])) = true := by
    decide +kernel
  obtain ⟨root, hroot, hfacts⟩ := (Option.any_eq_true _ _).1 hparse
  exact ⟨root, hroot, of_decide_eq_true hfacts⟩

theorem cursor_finds_token_accented : ∃ root, Lua.parse? accented = some root ∧ ∃ depth,
    ∀ uri keywords, ∀ record : FileRecord,
      (record.withBindings (Trace.bindings
        (Walk.events ⟨uri, .ofText accented, keywords⟩ depth root))).occurrenceAt? 0 12 =
          some ⟨"f", some "t", ⟨⟨0, 11⟩, ⟨0, 12⟩⟩⟩ := by
  obtain ⟨root, hroot, hshaped, htokens⟩ := parse?_accented
  obtain ⟨x, rest, hx, hx', hrest⟩ := List.map_eq_cons_iff.1 htokens
  obtain ⟨t, rest, rfl, ht', hrest⟩ := List.map_eq_cons_iff.1 hrest
  obtain ⟨f, rfl, hf'⟩ := List.map_eq_singleton_iff.1 hrest
  simp only [Prod.mk.injEq] at hx' ht' hf'
  obtain ⟨-, -, hxspan⟩ := hx'
  obtain ⟨-, -, htspan⟩ := ht'
  obtain ⟨hftext, hfbase, hfspan⟩ := hf'
  have hline (first last : Nat) (n : Node) (hlast : last ≤ 12) (hle : first ≤ last)
      (hspan : n.span = ⟨⟨0, byteColumn accented.toList first⟩,
        ⟨0, byteColumn accented.toList last⟩⟩) : n.OnLine accented 0 first last := by
    have hlength : accented.toList.length = 12 := by decide +kernel
    exact ⟨_, by decide +kernel, by omega, by omega, hspan⟩
  have hfline := hline 11 12 f.1 (by omega) (by omega) (hfspan.trans (by decide +kernel))
  have hlines : ∀ t ∈ root.tokens none, ∃ row first last, t.1.OnLine accented row first last := by
    rw [hx]
    simp only [List.forall_mem_cons, List.not_mem_nil, false_imp_iff, implies_true, and_true]
    exact ⟨⟨0, 0, 1, hline 0 1 x.1 (by omega) (by omega) (hxspan.trans (by decide +kernel))⟩,
      ⟨0, 9, 10, hline 9 10 t.1 (by omega) (by omega) (htspan.trans (by decide +kernel))⟩,
      ⟨0, 11, 12, hfline⟩⟩
  have hapart : (root.tokens none).Pairwise fun t t₂ => t.1.Apart t₂.1 := by
    rw [hx]
    simp [Node.Apart, hxspan, htspan, hfspan]
  refine ⟨root, hroot, root.nodes.length, fun uri keywords record => ?_⟩
  obtain ⟨hcomplete, hfinds⟩ := cursor_finds_token uri keywords hshaped hlines hapart
  have hfound := hfinds _ hcomplete record f.1 f.2 (by simp [hx]) 0 11 12 hfline 12 (by omega)
    le_rfl
  rw [hftext, hfbase] at hfound
  exact hfound

end Walk

end LuaSymbols
