import LuaSymbols.Walk

/-!
# Keywords and bindings

The keywords decide which calls are include calls and nothing else. Without these
(`Trace.quiet`), two walks that differ in their keywords give the same events, so the
bindings of a text do not depend on them.
-/

namespace LuaSymbols

namespace Trace

/-- The events that are no include calls. -/
def quiet (t : Trace) : Trace := t.filter (·.include?.isNone)

@[simp]
theorem quiet_append (t t₂ : Trace) : quiet (t ++ t₂) = t.quiet ++ quiet t₂ := List.filter_append ..

theorem quiet_flatMap_congr {α : Type} {l : List α} {f g : α → Trace}
    (h : ∀ a, (f a).quiet = (g a).quiet) : quiet (l.flatMap f) = quiet (l.flatMap g) := by
  simp only [quiet, List.filter_flatMap] at h ⊢
  simp only [h]

theorem quiet_elim_congr {α : Type} {o : Option α} {f g : α → Trace}
    (h : ∀ a, (f a).quiet = (g a).quiet) : quiet (o.elim [] f) = quiet (o.elim [] g) := by
  cases o with
  | none => rfl
  | some a => exact h a

theorem bindings_quiet (t : Trace) : t.quiet.bindings = t.bindings := by
  induction t with
  | nil => rfl
  | cons e t ih =>
    cases e <;> simp_all [quiet, Event.include?, bindings]

theorem isComplete_quiet (t : Trace) : t.quiet.isComplete = t.isComplete := by
  have h : Event.tooDeep ∈ t.quiet ↔ Event.tooDeep ∈ t := by simp [quiet, Event.include?]
  simp [isComplete, h]

end Trace

namespace Walk

variable (w : Walk) (ks : List String)

/-- The walk with other keywords. -/
def withKeywords : Walk := { w with keywords := ks }

mutual
theorem tableEvents_withKeywords (owner : String) : (n : Node) →
    tableEvents (w.withKeywords ks) owner n = tableEvents w owner n
  | .mk l cs => by
    simp only [tableEvents, fieldEvents_withKeywords owner cs]

theorem fieldEvents_withKeywords (owner : String) : (ns : List Node) →
    fieldEvents (w.withKeywords ks) owner ns = fieldEvents w owner ns
  | [] => rfl
  | .mk l cs :: rest => by
    have hv (owner : String) := valueEvents_withKeywords owner cs
    simp only [fieldEvents, fieldEvents_withKeywords owner rest, hv]
    rfl

theorem valueEvents_withKeywords (owner : String) : (ns : List Node) →
    valueEvents (w.withKeywords ks) owner ns = valueEvents w owner ns
  | [] => rfl
  | c :: rest => by
    simp only [valueEvents, tableEvents_withKeywords owner c, valueEvents_withKeywords owner rest]
end

theorem quiet_pairEvents_withKeywords {visit visit' : Node → List Event}
    (h : ∀ n, Trace.quiet (visit' n) = Trace.quiet (visit n)) (owner? : Node → Option String)
    (before : Node → List Event) (targets values : List Node) :
    Trace.quiet ((w.withKeywords ks).pairEvents visit' owner? before targets values) =
      Trace.quiet (w.pairEvents visit owner? before targets values) := by
  induction targets generalizing values with
  | nil => exact Trace.quiet_flatMap_congr h
  | cons t targets ih =>
    cases values with
    | nil => simp only [pairEvents, Trace.quiet_append, h, ih]
    | cons v values =>
      simp only [pairEvents, Trace.quiet_append, h, ih, tableEvents_withKeywords]

theorem quiet_includeEvents (callee arguments : Option Node) :
    Trace.quiet (w.includeEvents callee arguments) = [] := by
  unfold includeEvents
  split
  · split <;> rfl
  · rfl

/-- The walk goes through a tree in the same way under all keywords. -/
theorem quiet_events_withKeywords (depth : Nat) (n : Node) :
    Trace.quiet ((w.withKeywords ks).events depth n) = Trace.quiet (w.events depth n) := by
  induction depth generalizing n with
  | zero => rfl
  | succ depth ih =>
    have hl (ns : List Node) := Trace.quiet_flatMap_congr (l := ns) ih
    have ho (n? : Option Node) := Trace.quiet_elim_congr (o := n?) ih
    have hp := w.quiet_pairEvents_withKeywords ks ih
    have hname (name? : Option Node) : Trace.quiet (name?.elim []
        fun name => w.functionEvents n name ++ (w.withKeywords ks).events depth name) =
        Trace.quiet (name?.elim [] fun name => w.functionEvents n name ++ w.events depth name) :=
      Trace.quiet_elim_congr fun name => by simp only [Trace.quiet_append, ih]
    have hparameters (ps? : Option Node) : Trace.quiet (ps?.elim [] fun ps => ps.parts.flatMap
        ((w.withKeywords ks).parameterEvents ((w.withKeywords ks).events depth))) =
        Trace.quiet (ps?.elim [] fun ps => ps.parts.flatMap
          (w.parameterEvents (w.events depth))) :=
      Trace.quiet_elim_congr fun ps => Trace.quiet_flatMap_congr fun p => by
        simp only [parameterEvents, Trace.quiet_append, ih]
        rfl
    -- what the walk adds at a node itself reads no keyword but at a call
    have hrange : (w.withKeywords ks).range = w.range := rfl
    have hdeclaration : (w.withKeywords ks).declaration = w.declaration := rfl
    have hmember : (w.withKeywords ks).memberEvents = w.memberEvents := rfl
    have htarget : (w.withKeywords ks).targetEvents = w.targetEvents := rfl
    have hfunction : (w.withKeywords ks).functionEvents = w.functionEvents := rfl
    simp only [events, hrange, hdeclaration, hmember, htarget, hfunction]
    split
    · rfl
    · split
      · simp only [Trace.quiet_append, ih]
      · rfl
    · split
      · simp only [Trace.quiet_append, ih]
      · rfl
    · simp only [Trace.quiet_append, hp]
    · exact hp ..
    · simp only [Trace.quiet_append, hname, hparameters, hl]
    · simp only [Trace.quiet_append, hname, hparameters, hl]
    · simp only [Trace.quiet_append, quiet_includeEvents, ho]
    · simp only [Trace.quiet_append, hl]
    · simp only [Trace.quiet_append, hl]
    · split
      · exact hl _
      · exact hl _

/-- The bindings of a text do not depend on the keywords. -/
theorem bindings_trace_withKeywords (root : Node) :
    ((w.withKeywords ks).trace root).bindings = (w.trace root).bindings := by
  rw [← Trace.bindings_quiet, trace, quiet_events_withKeywords, Trace.bindings_quiet, trace]

/-- Nor does it depend on them whether a walk goes too deep. -/
theorem isComplete_trace_withKeywords (root : Node) :
    ((w.withKeywords ks).trace root).isComplete = (w.trace root).isComplete := by
  rw [← Trace.isComplete_quiet, trace, quiet_events_withKeywords, Trace.isComplete_quiet, trace]

end Walk

end LuaSymbols
