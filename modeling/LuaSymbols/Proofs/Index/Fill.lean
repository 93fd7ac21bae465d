import Mathlib.Data.List.TakeWhile
import LuaSymbols.Index.Refresh

/-!
# Filling a record event by event

A walk reports to the index as it goes: what it sees is noted in the record of the
file, and an include call is followed before the walk goes on. What is followed
leaves the record of a file that is being walked alone (`Steady`), so the order does
not show: the record gets the bindings of the whole walk, as if nothing had been
followed, and then its imports are met one by one (`fill_eq`).
-/

namespace LuaSymbols

namespace Table

variable {α : Type}

theorem modify_modify_of_ne (t : Table α) {k k₂ : String} (h : k ≠ k₂) (f g : α → α) :
    (t.modify k f).modify k₂ g = (t.modify k₂ g).modify k f := by
  simp only [modify, List.map_map]
  refine List.map_congr_left fun p _ => ?_
  by_cases e : p.1 = k
  · simp [e, h]
  · simp [e]

theorem modify_modify_self (t : Table α) (k : String) (f g : α → α) :
    (t.modify k f).modify k g = t.modify k (g ∘ f) := by
  simp only [modify, List.map_map]
  refine List.map_congr_left fun p _ => ?_
  by_cases e : p.1 = k <;> simp [e]

theorem set_modify_of_ne (t : Table α) {k k₂ : String} (h : k ≠ k₂) (f : α → α) (v : α) :
    (t.modify k f).set k₂ v = (t.set k₂ v).modify k f := by
  induction t with
  | nil => simp [modify, set, h.symm]
  | cons p rest ih =>
    obtain ⟨k', v'⟩ := p
    simp only [modify, List.map_cons, set] at ih ⊢
    by_cases e : k' = k₂
    · simp [e, h.symm]
    · simp [e, ih]

end Table

namespace Trace

/-- A walk that did not go too deep is reached as a whole. -/
theorem reached_of_isComplete {t : Trace} (h : t.isComplete = true) : t.reached = t := by
  have hn : Event.tooDeep ∉ t := by simpa [isComplete] using h
  refine List.takeWhile_eq_self_iff.2 fun e he => ?_
  simpa using fun heq : e = .tooDeep => hn (heq ▸ he)

/-- Noting events one after the other collects them by their kind. -/
theorem foldl_note (t : Trace) (b : Bindings) :
    t.foldl Bindings.note b =
      { identifiers := b.identifiers ++ t.bindings.identifiers
        locals := b.locals ++ t.bindings.locals
        parameters := b.parameters ++ t.bindings.parameters
        assignments := b.assignments ++ t.bindings.assignments
        functions := b.functions ++ t.bindings.functions
        outline := b.outline ++ t.bindings.outline } := by
  induction t generalizing b with
  | nil => simp [bindings]
  | cons e t ih =>
    rw [List.foldl_cons, ih]
    cases e <;> simp [Bindings.note, bindings]

end Trace

/-- The record of `importer` with the edge of one of its imports. -/
def FileRecord.addImport (importer : String) (r : FileRecord) (uri : String) : FileRecord :=
  if importer = "" then r else r.addDependency uri

namespace Index

/-! ## What a walk depends on -/

/-- All but the records is the same. -/
structure SameSetting (s s' : Index) : Prop where
  config : s'.config = s.config
  root : s'.root = s.root
  buffers : s'.buffers = s.buffers
  globals : s'.globals = s.globals

namespace SameSetting

variable {s s₁ s₂ : Index}

theorem refl (s : Index) : SameSetting s s := ⟨rfl, rfl, rfl, rfl⟩

theorem symm (h : SameSetting s s₁) : SameSetting s₁ s :=
  ⟨h.config.symm, h.root.symm, h.buffers.symm, h.globals.symm⟩

theorem trans (h : SameSetting s s₁) (h₂ : SameSetting s₁ s₂) : SameSetting s s₂ :=
  ⟨h₂.config.trans h.config, h₂.root.trans h.root, h₂.buffers.trans h.buffers,
    h₂.globals.trans h.globals⟩

theorem modify (s : Index) (key : String) (f : FileRecord → FileRecord) :
    SameSetting s (s.modify key f) := ⟨rfl, rfl, rfl, rfl⟩

theorem addImport (s : Index) (key dep : String) : SameSetting s (s.addImport key dep) := by
  unfold Index.addImport
  split
  · exact refl s
  · exact modify s key _

theorem register (s : Index) (key : String) : SameSetting s (s.register key) :=
  ⟨rfl, rfl, rfl, rfl⟩

theorem trace? (h : SameSetting s s₁) (d : Disk) (key : String) :
    s₁.trace? d key = s.trace? d key := by
  simp only [Index.trace?, text, traceOf?, h.config, h.buffers]

theorem find (h : SameSetting s s₁) (d : Disk) (importer : Option String) (reference : String)
    (dotted : Bool) : s₁.find d importer reference dotted = s.find d importer reference dotted := by
  simp only [Index.find, candidates, nearRoots, h.config, h.root]

theorem edges (h : SameSetting s s₁) (d : Disk) (key : String) (t : Trace) :
    s₁.edges d key t = s.edges d key t := by
  simp only [Index.edges, h.find]

end SameSetting

/-! ## Imports -/

/-- The keys that the include calls of the current text of a file lead to, in their
order; none if the text gives no walk. -/
def imports (s : Index) (d : Disk) (key : String) : List String :=
  match s.trace? d key with
  | .ok (some t) => s.edges d key t
  | _ => []

/-- The bindings of the current text of a file, walked on its own; none if it gives
no walk. -/
def ownBindings (s : Index) (d : Disk) (key : String) : Bindings :=
  match s.trace? d key with
  | .ok (some t) => t.settled
  | _ => {}

/-- The record that indexing a file for the first time makes. -/
def firstRecord (s : Index) (d : Disk) (key : String) : FileRecord where
  toBindings := s.ownBindings d key
  uri := key
  dependencies := if key = "" then [] else keepFirst (s.imports d key)

/-- Puts the bindings of the current text into a record. A text that gives no walk
changes nothing. -/
def rebind (s : Index) (d : Disk) (key : String) : Index :=
  match s.trace? d key with
  | .ok (some t) => s.modify key (·.withBindings t.settled)
  | _ => s

section
variable {s s' : Index} (d : Disk)

theorem SameSetting.imports (h : SameSetting s s') (key : String) :
    s'.imports d key = s.imports d key := by
  simp only [Index.imports, h.trace?, h.edges]

theorem SameSetting.firstRecord (h : SameSetting s s') (key : String) :
    s'.firstRecord d key = s.firstRecord d key := by
  simp only [Index.firstRecord, ownBindings, h.trace?, h.imports]

theorem SameSetting.rebind (s : Index) (key : String) : SameSetting s (s.rebind d key) := by
  unfold Index.rebind
  split
  · exact .modify s key _
  · exact .refl s

end

/-! ## Records behind a step -/

section
variable (s : Index) (d : Disk) (key k : String)

theorem get?_modify (f : FileRecord → FileRecord) :
    (s.modify key f).files.get? k =
      if k = key then (s.files.get? k).map f else s.files.get? k :=
  Table.get?_modify ..

@[simp]
theorem get?_modify_eq_none (f : FileRecord → FileRecord) :
    (s.modify key f).files.get? k = none ↔ s.files.get? k = none := by
  rw [get?_modify]
  split <;> simp

theorem get?_register :
    (s.register key).files.get? k = if k = key then some { uri := key } else s.files.get? k :=
  Table.get?_set ..

theorem get?_addImport (dep : String) :
    (s.addImport key dep).files.get? k =
      if k = key then (s.files.get? k).map (·.addImport key dep) else s.files.get? k := by
  unfold addImport FileRecord.addImport
  by_cases he : key = ""
  · simp [he]
  · simp only [if_neg he]
    exact get?_modify ..

@[simp]
theorem get?_addImport_eq_none (dep : String) :
    (s.addImport key dep).files.get? k = none ↔ s.files.get? k = none := by
  rw [get?_addImport]
  split <;> simp

theorem get?_rebind_of_ne {key k : String} (h : k ≠ key) :
    (s.rebind d key).files.get? k = s.files.get? k := by
  unfold rebind
  split
  · rw [get?_modify, if_neg h]
  · rfl

/-- A key that is registered anew has the bindings of its text and no edge yet. -/
theorem get?_rebind_register :
    ((s.register key).rebind d key).files.get? key =
      some { toBindings := s.ownBindings d key, uri := key } := by
  have h := (SameSetting.register s key).trace? d key
  unfold rebind ownBindings
  rw [h]
  split
  · rw [get?_modify, if_pos rfl, get?_register, if_pos rfl]
    rfl
  · rw [get?_register, if_pos rfl]

end

/-! ## What is followed in the middle of a walk -/

section
variable (s : Index) {key k : String} (f g : FileRecord → FileRecord)

theorem modify_modify_of_ne (h : k ≠ key) :
    (s.modify k f).modify key g = (s.modify key g).modify k f := by
  simp only [modify, Table.modify_modify_of_ne _ h]

theorem modify_modify_self : (s.modify key f).modify key g = s.modify key (g ∘ f) := by
  simp only [modify, Table.modify_modify_self]

theorem register_modify (h : k ≠ key) :
    (s.modify k f).register key = (s.register key).modify k f := by
  simp only [modify, register, Table.set_modify_of_ne _ h]

end

/-- Edges and bindings are added without regard to each other. -/
theorem addImport_mapBindings (s : Index) (key k dep : String) (f : Bindings → Bindings) :
    (s.modify k (·.mapBindings f)).addImport key dep =
      (s.addImport key dep).modify k (·.mapBindings f) := by
  unfold addImport
  split
  · rfl
  by_cases h : k = key
  · subst h
    simp only [addDependency, modify_modify_self]
    congr 1
    funext r
    by_cases hd : dep ∈ r.dependencies <;>
      simp [FileRecord.addDependency, FileRecord.mapBindings, hd]
  · exact modify_modify_of_ne s _ _ h

/-- A way to meet imports that adds records and leaves the bindings of known files to
others: changing these before or after it is the same. -/
structure Steady (visit : Index → String → Index) : Prop where
  same : ∀ s dep, SameSetting s (visit s dep)
  knows : ∀ {s} dep {k}, s.files.get? k ≠ none → (visit s dep).files.get? k ≠ none
  mapBindings : ∀ {s} dep {k} f, s.files.get? k ≠ none →
    visit (s.modify k (·.mapBindings f)) dep = (visit s dep).modify k (·.mapBindings f)

section
variable {visit : Index → String → Index} {s : Index} {key k : String}

theorem Steady.link (hv : Steady visit) (key : String) : Steady (link visit key) where
  same s dep := (hv.same s dep).trans (.addImport _ _ _)
  knows dep _ hk := by
    simpa [Index.link] using hv.knows dep hk
  mapBindings dep k f hk := by
    rw [Index.link, hv.mapBindings dep f hk, addImport_mapBindings, Index.link]

theorem Steady.foldl {step : Index → String → Index} (hv : Steady step) (deps : List String) :
    Steady fun s _ => deps.foldl step s := by
  induction deps with
  | nil => exact ⟨fun s _ => .refl s, fun _ _ hk => hk, fun _ _ _ _ => rfl⟩
  | cons dep deps ih =>
    refine ⟨fun s x => (hv.same s dep).trans (ih.same _ x),
      fun x _ hk => ih.knows x (hv.knows dep hk), fun {s} x k f hk => ?_⟩
    simp only [List.foldl_cons]
    rw [hv.mapBindings dep f hk]
    exact ih.mapBindings x f (hv.knows dep hk)

/-- An event that is no include call is noted. -/
theorem report_of_include?_eq_none (d : Disk) {e : Event} (h : e.include? = none) :
    report d visit key s e = s.modify key (·.mapBindings (·.note e)) := by
  cases e <;> first | rfl | cases h

/-- The reports of a walk: all that is noted, then all that is followed. An include
call at the head is moved behind the notes of the events after it. -/
theorem foldl_report (d : Disk) (hv : Steady visit) (events : List Event) (b : Bindings)
    (hkey : s.files.get? key ≠ none) :
    events.foldl (report d visit key) (s.modify key (·.withBindings b)) =
      ((events.filterMap Event.include?).flatMap fun (reference, dotted) =>
        (s.find d (some key) reference dotted).map (Uri.ofPath d.cwd)).foldl (link visit key)
        (s.modify key (·.withBindings (events.foldl Bindings.note b))) := by
  induction events generalizing s b with
  | nil => rfl
  | cons e events ih =>
    rw [List.foldl_cons, List.foldl_cons]
    cases he : e.include? with
    | none =>
      have hr : report d visit key (s.modify key (·.withBindings b)) e =
          s.modify key (·.withBindings (b.note e)) := by
        rw [report_of_include?_eq_none d he, modify_modify_self]
        rfl
      rw [hr, ih _ hkey, List.filterMap_cons_none he]
    | some call =>
      obtain ⟨reference, dotted⟩ := call
      obtain rfl : e = .includeCall reference dotted := by
        cases e <;> cases he
        rfl
      let deps := (s.find d (some key) reference dotted).map (Uri.ofPath d.cwd)
      have hdeps := (hv.link key).foldl deps
      have hs : SameSetting s (deps.foldl (link visit key) s) := hdeps.same s key
      have hr : report d visit key (s.modify key (·.withBindings b))
          (.includeCall reference dotted) =
            (deps.foldl (link visit key) s).modify key (·.withBindings b) := by
        rw [report, (SameSetting.modify s key _).find]
        exact hdeps.mapBindings key _ hkey
      rw [hr, ih _ (hdeps.knows key hkey), List.filterMap_cons_some he, List.flatMap_cons,
        List.foldl_append]
      simp only [hs.find]
      congr 1
      exact (hdeps.mapBindings key _ hkey).symm

/-- Filling a record: its bindings first, then its imports one by one. -/
theorem fill_eq (d : Disk) (hv : Steady visit) (hkey : s.files.get? key ≠ none) :
    fill d visit s key = (s.imports d key).foldl (link visit key) (s.rebind d key) := by
  cases ht : s.trace? d key with
  | error e => simp [fill, imports, rebind, ht]
  | ok t? =>
    cases t? with
    | none => simp [fill, imports, rebind, ht]
    | some t =>
      simp only [fill, imports, rebind, ht, FileRecord.reset]
      rw [foldl_report d hv t.reached {} hkey, Trace.settled]
      split
      · next hc =>
        have hb : t.reached.foldl Bindings.note {} = t.bindings := by
          rw [Trace.reached_of_isComplete hc, Trace.foldl_note]
          simp
        rw [hb]
        rfl
      · have hdeps := (hv.link key).foldl (s.edges d key t)
        have hk : (s.modify key (·.withBindings (t.reached.foldl Bindings.note {}))).files.get? key
            ≠ none := by simpa using hkey
        refine (hdeps.mapBindings key (fun _ => {}) hk).symm.trans ?_
        simp only [modify_modify_self]
        rfl

end

/-! ## Visits -/

section
variable {d : Disk} {s : Index} {key k : String} {n : Nat}

theorem get?_rebind_register_eq_none (s : Index) (d : Disk) (key k : String) :
    ((s.register key).rebind d key).files.get? k = none ↔ s.files.get? k = none ∧ k ≠ key := by
  by_cases h : k = key
  · subst h
    simp [get?_rebind_register]
  · rw [get?_rebind_of_ne _ _ h, get?_register, if_neg h]
    simp [h]

theorem rebind_register_modify (f : FileRecord → FileRecord) (h : k ≠ key) :
    ((s.modify k f).register key).rebind d key = ((s.register key).rebind d key).modify k f := by
  have ht := (SameSetting.modify (s.register key) k f).trace? d key
  rw [register_modify _ _ h]
  unfold rebind
  rw [ht]
  split
  · exact modify_modify_of_ne _ _ _ h
  · rfl

theorem visit_of_known (n : Nat) (h : s.files.get? key ≠ none) : visit d n s key = s := by
  cases n with
  | zero => rfl
  | succ n => rw [visit, if_pos (Table.has_iff.2 (Option.ne_none_iff_exists'.1 h))]

theorem visit_of_unknown_aux (hv : Steady (visit d n)) (h : s.files.get? key = none) :
    visit d (n + 1) s key = (s.imports d key).foldl (link (visit d n) key)
      ((s.register key).rebind d key) := by
  have hk : (s.register key).files.get? key ≠ none := by simp [get?_register]
  rw [visit, if_neg (by simp [Table.has, h]), fill_eq d hv hk, (SameSetting.register s key).imports]

/-- A visit is steady: the file that is walked is known, so the files that its imports
lead to are others. -/
theorem steady_visit (d : Disk) (n : Nat) : Steady (visit d n) := by
  induction n with
  | zero => exact ⟨fun s _ => .refl s, fun _ _ hk => hk, fun _ _ _ _ => rfl⟩
  | succ n ih =>
    have hsame (s : Index) (dep : String) : SameSetting s ((s.register dep).rebind d dep) :=
      (SameSetting.register s dep).trans (.rebind d _ dep)
    refine ⟨fun s dep => ?_, fun {s} dep {k} hk => ?_, fun {s} dep {k} f hk => ?_⟩
    · by_cases hdep : s.files.get? dep = none
      · rw [visit_of_unknown_aux ih hdep]
        exact (hsame s dep).trans (((ih.link dep).foldl _).same _ dep)
      · rw [visit_of_known _ hdep]
        exact .refl s
    · by_cases hdep : s.files.get? dep = none
      · rw [visit_of_unknown_aux ih hdep]
        refine ((ih.link dep).foldl _).knows dep ?_
        rw [ne_eq, get?_rebind_register_eq_none]
        exact fun h => hk h.1
      · rwa [visit_of_known _ hdep]
    · by_cases hdep : s.files.get? dep = none
      · have hne : k ≠ dep := by
          rintro rfl
          exact hk hdep
        have hdep' : (s.modify k (·.mapBindings f)).files.get? dep = none := by simpa using hdep
        rw [visit_of_unknown_aux ih hdep', visit_of_unknown_aux ih hdep,
          rebind_register_modify _ hne, (SameSetting.modify s k _).imports]
        refine ((ih.link dep).foldl _).mapBindings dep f ?_
        rw [ne_eq, get?_rebind_register_eq_none]
        exact fun h => hk h.1
      · rw [visit_of_known _ hdep, visit_of_known _ (by simpa using hdep)]

theorem visit_of_unknown (n : Nat) (h : s.files.get? key = none) :
    visit d (n + 1) s key = (s.imports d key).foldl (link (visit d n) key)
      ((s.register key).rebind d key) :=
  visit_of_unknown_aux (steady_visit d n) h

end

end Index

end LuaSymbols
