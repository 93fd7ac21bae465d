import LuaSymbols.Index

/-!
# Whose bindings a walk finds

Everything that a walk declares carries the key of the file that is walked, and a named
function is reported together with its outline entry. A trace is `Owned` by a file when
it is built in this way; every walk is (`owned_events`). So the bindings of a walk belong
to its file, and their outline lists their functions (`Owned.bindings`).
-/

namespace LuaSymbols

/-- The outline entry of a function: a function with a named base is a method. -/
def FunctionDeclaration.symbol (f : FunctionDeclaration) : OutlineSymbol where
  label := f.label
  kind := if f.base.getD "" = "" then .function else .method
  range := f.range
  uri := f.uri

/-- All that is declared carries the key of one file, and the outline lists the functions
entry by entry. -/
structure Bindings.Owned (uri : String) (b : Bindings) : Prop where
  locals : ∀ x ∈ b.locals, x.uri = uri
  parameters : ∀ x ∈ b.parameters, x.uri = uri
  assignments : ∀ x ∈ b.assignments, x.uri = uri
  functions : ∀ x ∈ b.functions, x.uri = uri
  outline : b.outline = b.functions.map FunctionDeclaration.symbol

/-- What an event other than a function and its outline entry may be in the walk of a
file. -/
def Event.OwnedBy (uri : String) : Event → Prop
  | localName d | parameter d => d.uri = uri
  | assignment a => a.uri = uri
  | function _ | outline _ => False
  | identifier _ | includeCall _ _ | tooDeep => True

namespace Trace

inductive Owned (uri : String) : Trace → Prop where
  | nil : Owned uri []
  | cons {e : Event} {t : Trace} : e.OwnedBy uri → Owned uri t → Owned uri (e :: t)
  | function {f : FunctionDeclaration} {t : Trace} : f.uri = uri → Owned uri t →
      Owned uri (.function f :: .outline f.symbol :: t)

namespace Owned

variable {uri : String} {t t₂ : Trace}

theorem append (h : Owned uri t) (h₂ : Owned uri t₂) : Owned uri (t ++ t₂) := by
  induction h with
  | nil => exact h₂
  | cons he _ ih => exact .cons he ih
  | function hf _ ih => exact .function hf ih

theorem of_forall (h : ∀ e ∈ t, e.OwnedBy uri) : Owned uri t := by
  induction t with
  | nil => exact .nil
  | cons e t ih =>
    exact .cons (h e List.mem_cons_self) (ih fun e' he' => h e' (List.mem_cons_of_mem e he'))

theorem flatMap {α : Type} {l : List α} {f : α → Trace} (h : ∀ a, Owned uri (f a)) :
    Owned uri (l.flatMap f) := by
  induction l with
  | nil => exact .nil
  | cons a l ih => exact (h a).append ih

theorem map {α : Type} {l : List α} {f : α → Event} (h : ∀ a, (f a).OwnedBy uri) :
    Owned uri (l.map f) := by
  refine of_forall fun e he => ?_
  obtain ⟨a, -, rfl⟩ := List.mem_map.1 he
  exact h a

theorem elim {α : Type} {o : Option α} {f : α → Trace} (h : ∀ a, Owned uri (f a)) :
    Owned uri (o.elim [] f) := by
  cases o with
  | none => exact .nil
  | some a => exact h a

protected theorem bindings (h : Owned uri t) : t.bindings.Owned uri := by
  induction h with
  | nil => constructor <;> simp [bindings]
  | @cons e t he _ ih =>
    obtain ⟨hlocals, hparameters, hassignments, hfunctions, houtline⟩ := ih
    cases e with
    | localName d =>
      exact ⟨List.forall_mem_cons.2 ⟨he, hlocals⟩, hparameters, hassignments, hfunctions, houtline⟩
    | parameter d =>
      exact ⟨hlocals, List.forall_mem_cons.2 ⟨he, hparameters⟩, hassignments, hfunctions, houtline⟩
    | assignment a =>
      exact ⟨hlocals, hparameters, List.forall_mem_cons.2 ⟨he, hassignments⟩, hfunctions, houtline⟩
    | function f => exact he.elim
    | outline s => exact he.elim
    | identifier | includeCall | tooDeep =>
      exact ⟨hlocals, hparameters, hassignments, hfunctions, houtline⟩
  | @function f t hf _ ih =>
    obtain ⟨hlocals, hparameters, hassignments, hfunctions, houtline⟩ := ih
    exact ⟨hlocals, hparameters, hassignments, List.forall_mem_cons.2 ⟨hf, hfunctions⟩,
      congrArg (f.symbol :: ·) houtline⟩

/-- A walk that went too deep leaves nothing. -/
theorem settled (h : Owned uri t) : t.settled.Owned uri := by
  unfold Trace.settled
  split
  · exact h.bindings
  · exact Owned.bindings .nil

end Owned

end Trace

namespace Walk

open Trace (Owned)

variable (w : Walk)

/-! ## Single nodes -/

theorem owned_targetEvents (n : Node) : Owned w.uri (w.targetEvents n) := by
  unfold targetEvents
  split
  · exact .cons rfl .nil
  · exact .nil

theorem owned_functionEvents (n name : Node) : Owned w.uri (w.functionEvents n name) := by
  unfold functionEvents
  split
  · next label base _ =>
    split
    · exact .nil
    · have hkind : SymbolKind.ofBase base =
          if base.getD "" = "" then .function else .method := by
        cases base <;> rfl
      rw [hkind]
      exact .function rfl .nil
  · exact .nil

theorem owned_includeEvents (callee arguments : Option Node) :
    Owned w.uri (w.includeEvents callee arguments) := by
  unfold includeEvents
  split
  · split
    · exact .cons trivial .nil
    · exact .nil
  · exact .nil

theorem owned_memberEvents (n table tail : Node) : Owned w.uri (w.memberEvents n table tail) :=
  .cons trivial (.cons trivial .nil)

mutual
/-- The fields of a table are assignments in the file that is walked. -/
theorem assignment_of_tableEvents (owner : String) {e : Event} : (n : Node) →
    e ∈ tableEvents w owner n → ∃ a, e = .assignment a ∧ a.uri = w.uri
  | .mk l cs, he => by
    unfold tableEvents at he
    split at he
    · exact assignment_of_fieldEvents owner cs he
    · cases he

theorem assignment_of_fieldEvents (owner : String) {e : Event} : (ns : List Node) →
    e ∈ fieldEvents w owner ns → ∃ a, e = .assignment a ∧ a.uri = w.uri
  | [], he => by cases he
  | .mk l cs :: rest, he => by
    unfold fieldEvents at he
    rcases List.mem_append.1 he with he | he
    · split at he
      · split at he
        · split at he
          · rcases List.mem_cons.1 he with rfl | he
            · exact ⟨_, rfl, rfl⟩
            · exact assignment_of_valueEvents _ cs he
          · cases he
        · cases he
      · cases he
    · exact assignment_of_fieldEvents owner rest he

theorem assignment_of_valueEvents (owner : String) {e : Event} : (ns : List Node) →
    e ∈ valueEvents w owner ns → ∃ a, e = .assignment a ∧ a.uri = w.uri
  | [], he => by cases he
  | c :: rest, he => by
    unfold valueEvents at he
    split at he
    · exact assignment_of_tableEvents owner c he
    · exact assignment_of_valueEvents owner rest he
end

theorem owned_tableEvents (owner : String) (n : Node) : Owned w.uri (tableEvents w owner n) := by
  refine .of_forall fun e he => ?_
  obtain ⟨a, rfl, ha⟩ := w.assignment_of_tableEvents owner n he
  exact ha

/-! ## Trees -/

section
variable {w} {visit : Node → List Event} (hvisit : ∀ n, Owned w.uri (visit n))
include hvisit

theorem owned_pairEvents (owner? : Node → Option String) {before : Node → List Event}
    (hbefore : ∀ n, Owned w.uri (before n)) (targets values : List Node) :
    Owned w.uri (w.pairEvents visit owner? before targets values) := by
  induction targets generalizing values with
  | nil => exact .flatMap hvisit
  | cons t targets ih =>
    have ht := (hbefore t).append (hvisit t)
    cases values with
    | nil => exact ht.append (ih [])
    | cons v values =>
      have hv := ht.append (hvisit v)
      exact (hv.append (.elim fun owner => w.owned_tableEvents owner v)).append (ih values)

theorem owned_parameterEvents (n : Node) : Owned w.uri (w.parameterEvents visit n) := by
  unfold parameterEvents
  split
  · exact .cons rfl (hvisit n)
  · exact hvisit n

end

/-- A walk reports bindings of its own file only. -/
theorem owned_events (depth : Nat) (n : Node) : Owned w.uri (w.events depth n) := by
  induction depth generalizing n with
  | zero => exact .cons trivial .nil
  | succ depth ih =>
    have hfunction : Owned w.uri
        ((n.child? .name).elim [] (fun name => w.functionEvents n name ++ w.events depth name) ++
          (n.child? .parameters).elim []
            (fun ps => ps.parts.flatMap (w.parameterEvents (w.events depth))) ++
          (n.childrenAt .body).flatMap (w.events depth)) :=
      ((Owned.elim fun name => (w.owned_functionEvents n name).append (ih name)).append
        (.elim fun ps => .flatMap (owned_parameterEvents ih))).append (.flatMap ih)
    have hlocals (ns : List Node) : Owned w.uri (ns.map (.localName <| w.declaration ·)) :=
      .map fun _ => rfl
    unfold events
    split
    · exact .cons trivial .nil
    · split
      · exact (ih _).append (w.owned_memberEvents _ _ _)
      · exact .nil
    · split
      · exact (ih _).append (w.owned_memberEvents _ _ _)
      · exact .nil
    · exact (hlocals _).append (owned_pairEvents ih _ (fun _ => .nil) _ _)
    · exact owned_pairEvents ih _ w.owned_targetEvents _ _
    · exact hfunction
    · exact hfunction
    · exact ((w.owned_includeEvents _ _).append (.elim ih)).append (.elim ih)
    · exact (hlocals _).append (.flatMap ih)
    · exact (hlocals _).append (.flatMap ih)
    · split
      · exact .flatMap ih
      · exact .flatMap ih

theorem owned_trace (root : Node) : Owned w.uri (w.trace root) :=
  w.owned_events depthLimit root

end Walk

end LuaSymbols
