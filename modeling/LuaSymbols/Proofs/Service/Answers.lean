import Mathlib
import LuaSymbols.Proofs.Service.Snapshot
import LuaSymbols.Proofs.Service.Store
import LuaSymbols.Proofs.Walk.Declarations

/-!
# Answers without repetitions

In one file, a walk declares no two names at one place if the sites of the tree lie apart
(`FileRecord.Walked`). In two files, the entries have different uris: all that a record
declares carries its key, and no global file is listed twice. The search never adds the global
files to a match in the file itself. So no entry of an answer is there twice
(`definition_nodup`).
-/

namespace LuaSymbols

namespace FileRecord

/-- The bindings of a record are those of a walk, in whose tree no two sites have one place. -/
def Walked (r : FileRecord) : Prop :=
  ∃ (w : Walk) (root : Node), root.Shaped ∧ w.Apart root ∧ r.toBindings = (w.trace root).bindings

section
variable {r : FileRecord} {withFunctions : Bool} {o : Occurrence}

/-- A search lists each declaration of the four lists at most once, in their order. -/
theorem range_definitions_sublist :
    ((r.definitions withFunctions o).map (·.range)).Sublist r.places := by
  have hfiltered {α : Type} (l : List α) (p : α → Bool) (location : α → Location) :
      (((l.filter p).map location).map (·.range)).Sublist (l.map fun a => (location a).range) := by
    rw [List.map_map]
    exact List.filter_sublist.map _
  rw [definitions, List.map_append, List.map_append]
  refine .append (.append ?_ (hfiltered r.assignments _ _)) ?_
  · split
    · rw [List.map_append]
      exact .append (hfiltered r.locals _ _) (hfiltered r.parameters _ _)
    · exact List.nil_sublist _
  · split
    · exact hfiltered r.functions _ _
    · exact List.nil_sublist _

theorem Walked.nodup_definitions (h : r.Walked) : (r.definitions withFunctions o).Nodup := by
  obtain ⟨w, root, hs, ha, hbindings⟩ := h
  have hplaces : r.places.Nodup := by
    rw [hbindings]
    exact w.nodup_places hs ha
  exact .of_map _ (range_definitions_sublist.nodup hplaces)

theorem uri_of_mem_definitions {key : String} (h : r.toBindings.Owned key) {l : Location}
    (hl : l ∈ r.definitions withFunctions o) : l.uri = key := by
  have hfiltered {α : Type} {xs : List α} {p : α → Bool} {location : α → Location}
      (hxs : ∀ x ∈ xs, (location x).uri = key) (hmem : l ∈ (xs.filter p).map location) :
      l.uri = key := by
    obtain ⟨x, hx, rfl⟩ := List.mem_map.1 hmem
    exact hxs x (List.mem_filter.1 hx).1
  rw [definitions, List.mem_append, List.mem_append] at hl
  rcases hl with (hl | hl) | hl
  · split at hl
    · rcases List.mem_append.1 hl with hl | hl
      · exact hfiltered h.locals hl
      · exact hfiltered h.parameters hl
    · cases hl
  · exact hfiltered h.assignments hl
  · split at hl
    · exact hfiltered h.functions hl
    · cases hl

end

end FileRecord

namespace Index

section
variable {s : Index} {o : Occurrence} {uri : String}

theorem nodup_declared (hwalked : ∀ key r, s.files.get? key = some r → r.Walked) :
    (s.declared o uri).Nodup := by
  cases hr : s.get? uri with
  | none =>
    rw [declared, hr]
    exact List.nodup_nil
  | some r =>
    rw [declared_eq hr]
    exact (hwalked _ r hr).nodup_definitions

theorem uri_of_mem_declared (hs : s.Sound) {l : Location} (h : l ∈ s.declared o uri) :
    l.uri = Uri.normalize uri := by
  cases hr : s.get? uri with
  | none =>
    rw [declared, hr] at h
    cases h
  | some r =>
    rw [declared_eq hr] at h
    exact FileRecord.uri_of_mem_definitions (hs.records _ r hr).owned h

/-- Global files are known by their keys. -/
theorem Sound.normal_of_mem_globals (hs : s.Sound) {g : String} (hg : g ∈ s.globals) :
    Uri.normalize g = g := by
  obtain ⟨r, hr⟩ := Option.ne_none_iff_exists'.1 (hs.known g hg)
  exact (hs.records g r hr).normal

theorem nodup_globals_declared (hs : s.Sound)
    (hwalked : ∀ key r, s.files.get? key = some r → r.Walked) :
    (s.globals.flatMap (s.declared o)).Nodup := by
  refine List.nodup_flatMap.2 ⟨fun g _ => nodup_declared hwalked, ?_⟩
  refine hs.distinct.imp_of_mem fun {g g₂} hg hg₂ hne l hl hl₂ => hne ?_
  calc g = Uri.normalize g := (hs.normal_of_mem_globals hg).symm
    _ = l.uri := (uri_of_mem_declared hs hl).symm
    _ = Uri.normalize g₂ := uri_of_mem_declared hs hl₂
    _ = g₂ := hs.normal_of_mem_globals hg₂

theorem nodup_lookUp (hs : s.Sound)
    (hwalked : ∀ key r, s.files.get? key = some r → r.Walked) (line character : Int) :
    (s.lookUp uri line character).Nodup := by
  unfold lookUp
  split
  · exact List.nodup_nil
  · split
    · exact nodup_globals_declared hs hwalked
    · exact nodup_declared hwalked

end

end Index

namespace Service

open Index

/-- **No definition is listed twice.** Let a definition query return in a state of a run, and let
each record, those that the query itself made included, be that of a walk of a tree with the
shape of the grammar, in which identifiers, member accesses and named functions have distinct
places. Then no two entries of the answer have the same label, uri and range, whether functions
are asked for or not. -/
theorem definition_nodup {s s' : Index} (hs : Reachable s) {d : Disk} {uri : String}
    {line character : Int} {ls : List Location}
    (h : s.definition d uri line character = .pure ls s')
    (hwalked : ∀ key r, s'.files.get? key = some r → r.Walked) : ls.Nodup := by
  obtain ⟨rfl, -⟩ := definition_spec hs.globalsKnown h
  have hreachable : Reachable s' := by
    have hstep := hs.step d (.definition uri line character)
    rwa [Action.run, h] at hstep
  exact nodup_lookUp hreachable.sound hwalked line character

/-- One name as a local, in a loop, as a parameter, twice as a target and as a function, and as
a member of two tables. -/
def homonymsText : String :=
  "local x = 1 x = 2 for x = 1, 2 do t = \x7bx = x\x7d end function x(x) x, y.x = 3 end"

/-- A script that uses the name, and one that declares it. -/
def homonyms : Disk :=
  .ofRoot [([['a', '.', 'l', 'u', 'a']], .file "print(x)".toUTF8.toList),
    ([['b', '.', 'l', 'u', 'a']], .file homonymsText.toUTF8.toList)]

/-- The script with the declarations is global. -/
def published : Index :=
  (Action.indexDependency none "b.lua" true).run homonyms
    (.create "/" "/" { resolveFunctions := true })

/-- Whether the bindings of a record are those of a text whose sites lie apart. -/
def isWalkOf (r : FileRecord) (text : String) : Bool :=
  (Lua.parse? text).any fun root => decide (root.Shaped ∧
    Walk.Apart ⟨r.uri, .ofText text, []⟩ root ∧
    r.toBindings = (Walk.trace ⟨r.uri, .ofText text, []⟩ root).bindings)

theorem walked_of_isWalkOf {r : FileRecord} {text : String} (h : isWalkOf r text = true) :
    r.Walked := by
  obtain ⟨root, -, hfacts⟩ := (Option.any_eq_true _ _).1 h
  exact ⟨_, root, of_decide_eq_true hfacts⟩

theorem definition_nodup_homonyms :
    ∃ ls s', published.definition homonyms "file:///a.lua" 0 6 = .pure ls s' ∧
      ls.map (fun l => (l.label, l.uri)) = List.replicate 6 ("x", "file:///b.lua") ∧ ls.Nodup := by
  have hreachable : Reachable published :=
    .step _ _ (.create "/" "/" { resolveFunctions := true })
  have hresult : (published.definition homonyms "file:///a.lua" 0 6).result.toOption.map
      (·.map fun l => (l.label, l.uri)) = some (List.replicate 6 ("x", "file:///b.lua")) := by
    decide +kernel
  have hrecords : (published.definition homonyms "file:///a.lua" 0 6).index.files.all
      (fun p => ["print(x)", homonymsText].any (isWalkOf p.2)) = true := by
    decide +kernel
  rcases hq : published.definition homonyms "file:///a.lua" 0 6 with ⟨_ | ls, s'⟩
  · rw [hq] at hresult
    cases hresult
  · rw [hq] at hresult hrecords
    refine ⟨ls, s', rfl, Option.some.inj hresult, definition_nodup hreachable hq fun key r hr => ?_⟩
    obtain ⟨before, after, hfiles, -⟩ := List.lookup_eq_some_iff.1 hr
    have hmem : (key, r) ∈ s'.files := by
      rw [hfiles]
      exact List.mem_append_right _ List.mem_cons_self
    obtain ⟨text, -, hwalk⟩ := List.any_eq_true.1 (List.all_eq_true.1 hrecords _ hmem)
    exact walked_of_isWalkOf hwalk

end Service

end LuaSymbols
