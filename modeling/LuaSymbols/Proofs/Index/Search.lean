import Mathlib.Data.List.Basic
import LuaSymbols.Index.Definition

/-!
# The search of a definition query

What a definition query searches for, said of the records as they are: nothing is brought in
step and nothing fails. The declarations of a record stand in one list (`FileRecord.entries`),
and the search of a file is one filter of it by what answers to a name (`Entry.Answers`);
`definitions_eq` says that the lists of the code, searched kind by kind, come to the same.
The search of an index (`Index.lookUp`) takes the file of the query, and where that has no
answer, the global files.
-/

namespace LuaSymbols

/-! ## The name at a position -/

/-- A position is on a line and on a column between those of the ends, ends included. -/
def Range.Covers (r : Range) (line character : Int) : Prop :=
  (r.start.line ≤ line ∧ line ≤ r.stop.line) ∧
    r.start.character ≤ character ∧ character ≤ r.stop.character

instance (r : Range) (line character : Int) : Decidable (r.Covers line character) :=
  inferInstanceAs (Decidable (_ ∧ _))

theorem Range.contains_eq (r : Range) (line character : Int) :
    r.contains line character = decide (r.Covers line character) := by
  rw [Bool.eq_iff_iff, decide_eq_true_eq]
  simp [contains, Covers]

/-! ## The declarations of a name -/

/-- No base, or an empty one. -/
def IsBare (base : Option String) : Prop := base = none ∨ base = some ""

/-- Two bases qualify a name in the same way. -/
def SameOwner (a b : Option String) : Prop := a = b ∨ IsBare a ∧ IsBare b

instance (base : Option String) : Decidable (IsBare base) := inferInstanceAs (Decidable (_ ∨ _))

instance (a b : Option String) : Decidable (SameOwner a b) := inferInstanceAs (Decidable (_ ∨ _))

theorem isBare_iff {base : Option String} : IsBare base ↔ base.getD "" = "" := by
  cases base <;> simp [IsBare]

theorem sameBase_eq (a b : Option String) : sameBase a b = decide (SameOwner a b) := by
  rw [sameBase, Bool.eq_iff_iff, beq_iff_eq, decide_eq_true_eq, SameOwner]
  constructor
  · intro h
    by_cases ha : IsBare a
    · exact .inr ⟨ha, isBare_iff.2 (h ▸ isBare_iff.1 ha)⟩
    · have hb : ¬ IsBare b := fun hb => ha (isBare_iff.2 (h.trans (isBare_iff.1 hb)))
      cases a <;> cases b <;> simp_all [IsBare]
  · rintro (rfl | ⟨ha, hb⟩)
    · rfl
    · rw [isBare_iff.1 ha, isBare_iff.1 hb]

/-- A declaration as a search meets it. -/
structure Entry where
  place : Location
  /-- Whether it is a local variable or a parameter. -/
  isVariable : Bool
  /-- What an assignment or a function declares the name under. -/
  base : Option String

/-- Whether a declaration is one of the name that occurs: a variable if the name has no base,
anything else if the bases are the same. -/
def Entry.Answers (e : Entry) (o : Occurrence) : Prop :=
  e.place.label = o.name ∧ if e.isVariable then o.base = none else SameOwner e.base o.base

instance (e : Entry) (o : Occurrence) : Decidable (e.Answers o) := by
  unfold Entry.Answers
  infer_instance

def Declaration.entry (d : Declaration) : Entry := ⟨⟨d.label, d.uri, d.range⟩, true, none⟩

def Assignment.entry (a : Assignment) : Entry := ⟨⟨a.label, a.uri, a.range⟩, false, a.base⟩

def FunctionDeclaration.entry (f : FunctionDeclaration) : Entry :=
  ⟨⟨f.label, f.uri, f.range⟩, false, f.base⟩

/-- The places of the entries that answer to a name. -/
def answersTo (o : Occurrence) (entries : List Entry) : List Location :=
  (entries.filter (·.Answers o)).map (·.place)

theorem answersTo_append (o : Occurrence) (es es₂ : List Entry) :
    answersTo o (es ++ es₂) = answersTo o es ++ answersTo o es₂ := by
  rw [answersTo, List.filter_append, List.map_append]
  rfl

theorem answersTo_variables (o : Occurrence) (ds : List Declaration) :
    answersTo o (ds.map Declaration.entry) =
      if o.base = none then (ds.filter (·.label = o.name)).map (·.entry.place) else [] := by
  rw [answersTo, List.filter_map, List.map_map]
  have hanswers (d : Declaration) : d.entry.Answers o ↔ d.label = o.name ∧ o.base = none :=
    Iff.rfl
  split
  · next hbase =>
    refine congrArg _ (List.filter_congr fun d _ => decide_eq_decide.2 ?_)
    rw [hanswers, and_iff_left hbase]
  · next hbase => simp [Function.comp_def, hanswers, hbase]

theorem answersTo_members {α : Type} (entry : α → Entry) (o : Occurrence) (as : List α)
    (h : ∀ a, (entry a).isVariable = false) :
    answersTo o (as.map entry) =
      (as.filter fun a => (entry a).place.label = o.name && sameBase (entry a).base o.base).map
        fun a => (entry a).place := by
  rw [answersTo, List.filter_map, List.map_map]
  simp [Function.comp_def, Entry.Answers, h, sameBase_eq]

namespace FileRecord

/-- The declarations of a record in the order of a search, functions only if they are asked
for. -/
def entries (r : FileRecord) (withFunctions : Bool) : List Entry :=
  r.locals.map Declaration.entry ++ r.parameters.map Declaration.entry ++
    r.assignments.map Assignment.entry ++
    if withFunctions then r.functions.map FunctionDeclaration.entry else []

/-- Searching kind by kind is one search of all entries. -/
theorem definitions_eq (r : FileRecord) (withFunctions : Bool) (o : Occurrence) :
    r.definitions withFunctions o = answersTo o (r.entries withFunctions) := by
  have hassignments := answersTo_members Assignment.entry o r.assignments fun _ => rfl
  have hfunctions := answersTo_members FunctionDeclaration.entry o r.functions fun _ => rfl
  rw [entries, answersTo_append, answersTo_append, answersTo_append, answersTo_variables,
    answersTo_variables, definitions]
  congr 1
  · congr 1
    · split <;> rfl
    · exact hassignments.symm
  · split
    · exact hfunctions.symm
    · rfl

end FileRecord

namespace Index

/-! ## The search of an index -/

/-- The first name of a file, in the order of its record, that covers a position. -/
def occurrence? (s : Index) (uri : String) (line character : Int) : Option Occurrence :=
  (s.get? uri).bind fun r => (r.identifiers.filter (·.range.Covers line character)).head?

/-- The declarations of a name that the record of a file has. -/
def declared (s : Index) (o : Occurrence) (uri : String) : List Location :=
  (s.get? uri).elim [] fun r => answersTo o (r.entries s.config.resolveFunctions)

/-- The declarations of the name at a position: those of its own file, or where there are
none, those of the global files in order. Records are taken as they are. -/
def lookUp (s : Index) (uri : String) (line character : Int) : List Location :=
  match s.occurrence? uri line character with
  | none => []
  | some o =>
    if s.declared o uri = [] then s.globals.flatMap (s.declared o) else s.declared o uri

/-- The files whose records that search looks at. -/
def consulted (s : Index) (uri : String) (line character : Int) : List String :=
  match s.occurrence? uri line character with
  | none => [uri]
  | some o => if s.declared o uri = [] then uri :: s.globals else [uri]

variable {s : Index} {uri : String} {r : FileRecord}

theorem occurrence?_eq (h : s.get? uri = some r) (line character : Int) :
    s.occurrence? uri line character = r.occurrenceAt? line character := by
  simp [occurrence?, h, FileRecord.occurrenceAt?, Range.contains_eq]

theorem declared_eq (h : s.get? uri = some r) (o : Occurrence) :
    s.declared o uri = r.definitions s.config.resolveFunctions o := by
  rw [declared, h, Option.elim_some, FileRecord.definitions_eq]

end Index

end LuaSymbols
