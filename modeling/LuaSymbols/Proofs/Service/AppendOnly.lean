import Mathlib
import LuaSymbols.Proofs.Index.Frame
import LuaSymbols.Proofs.Service.Run

/-!
# Nothing is taken back

Records are filled again in place, and a new configuration changes what imports lead to.
What an index once held it holds for good all the same: its keys, the edges of each record
and the global files, all in their old order and with what is new behind them (`Appended`).
Every move appends (`Move.appended`), hence so does every run (`store_append_only`).
-/

namespace LuaSymbols

namespace FileRecord

theorem dependencies_addImport_prefix (r : FileRecord) (key dep : String) :
    r.dependencies <+: (r.addImport key dep).dependencies := by
  rcases r.addImport_eq_or key dep with hsame | ⟨-, hadded⟩
  · rw [hsame]
  · rw [hadded]
    exact List.prefix_append _ _

theorem dependencies_foldl_addImport_prefix (r : FileRecord) (key : String)
    (deps : List String) :
    r.dependencies <+: (deps.foldl (addImport key) r).dependencies := by
  induction deps generalizing r with
  | nil => exact List.prefix_refl _
  | cons dep deps ih => exact (r.dependencies_addImport_prefix key dep).trans (ih _)

end FileRecord

namespace Index

/-- Each record of `s` is in `s'`, with its edges and maybe more behind them; so are the
global files. -/
structure Appended (s s' : Index) : Prop where
  records : ∀ k r, s.files.get? k = some r →
    ∃ r', s'.files.get? k = some r' ∧ r.dependencies <+: r'.dependencies
  globals : s.globals <+: s'.globals

section
variable {d : Disk} {s s₁ s' : Index} {key : String}

namespace Appended

theorem of_kept (hrecords : ∀ k r, s.files.get? k = some r → s'.files.get? k = some r)
    (hglobals : s'.globals = s.globals) : Appended s s' :=
  ⟨fun k r hr => ⟨r, hrecords k r hr, List.prefix_refl _⟩, hglobals ▸ List.prefix_refl _⟩

theorem refl (s : Index) : Appended s s := of_kept (fun _ _ hr => hr) rfl

theorem trans (h : Appended s s₁) (h₁ : Appended s₁ s') : Appended s s' := by
  refine ⟨fun k r hr => ?_, h.globals.trans h₁.globals⟩
  obtain ⟨r₁, hr₁, hedges⟩ := h.records k r hr
  obtain ⟨r', hr', hedges₁⟩ := h₁.records k r₁ hr₁
  exact ⟨r', hr', hedges.trans hedges₁⟩

theorem modify (s : Index) (key : String) {f : FileRecord → FileRecord}
    (hf : ∀ r, r.dependencies <+: (f r).dependencies) : Appended s (s.modify key f) := by
  refine ⟨fun k r hr => ?_, List.prefix_refl _⟩
  rw [get?_modify, hr]
  split
  · exact ⟨f r, rfl, hf r⟩
  · exact ⟨r, rfl, List.prefix_refl _⟩

theorem mark (s : Index) (key : String) : Appended s (s.modify key ({ · with dirty := true })) :=
  modify s key fun _ => List.prefix_refl _

theorem openDocument (s : Index) (uri text : String) : Appended s (s.openDocument uri text) :=
  of_kept (fun _ _ hr => hr) rfl

theorem visit (d : Disk) (s : Index) (key : String) :
    Appended s (visit d (chainBound d) s key) :=
  of_kept (visited_visit d s key).kept (visited_visit d s key).same.globals

/-- The walk forgets the bindings of its record and keeps the edges. -/
theorem reindex {r : FileRecord} (hown : s.files.get? key = some r) :
    Appended s (s.reindex d key).index := by
  refine ⟨fun k r' hr' => ?_, (sameSetting_reindex hown).globals ▸ List.prefix_refl _⟩
  by_cases hk : k = key
  · subst hk
    cases hown.symm.trans hr'
    have hrebound : (s.rebound d k r).dependencies = r.dependencies := by
      unfold rebound
      split <;> rfl
    refine ⟨_, get?_reindex hown, ?_⟩
    rw [← hrebound]
    exact FileRecord.dependencies_foldl_addImport_prefix _ _ _
  · exact ⟨r', get?_reindex_of_ne hown hk hr', List.prefix_refl _⟩

theorem addImport (s : Index) (key dep : String) : Appended s (s.addImport key dep) := by
  refine ⟨fun k r hr => ?_, (SameSetting.addImport s key dep).globals ▸ List.prefix_refl _⟩
  rw [get?_addImport, hr]
  split
  · exact ⟨_, rfl, r.dependencies_addImport_prefix key dep⟩
  · exact ⟨r, rfl, List.prefix_refl _⟩

theorem addGlobal (s : Index) (uri : String) : Appended s (s.addGlobal uri) := by
  unfold Index.addGlobal
  split
  · exact refl s
  · exact ⟨fun k r hr => ⟨r, hr, List.prefix_refl _⟩, List.prefix_append _ _⟩

theorem configure (s : Index) (config : Config) : Appended s (s.configure config) := by
  refine ⟨fun k r hr => ⟨{ r with dirty := true }, ?_, List.prefix_refl _⟩, List.prefix_refl _⟩
  rw [Index.configure, Table.get?_mapValues, hr]
  rfl

end Appended

theorem Move.appended (h : Move d s s') : Appended s s' := by
  cases h with
  | visit _ => exact .visit d s _
  | reindex hr _ => exact .reindex hr
  | mark uri => exact .mark s _
  | link uri _ => exact .addImport s _ _
  | publish _ => exact .addGlobal s _
  | configure config => exact .configure s config
  | @store uri text _ => exact (Appended.openDocument s uri text).trans (.mark _ _)
  | @storeNew uri text _ => exact (Appended.openDocument s uri text).trans (.visit d _ _)
  | close uri => exact .of_kept (fun _ _ hr => hr) rfl

theorem Moves.appended (h : Moves d s s') : Appended s s' := by
  induction h with
  | refl => exact .refl s
  | tail _ hm ih => exact ih.trans hm.appended

end

end Index

namespace Service

open Index

/-- The index after a run of actions, each with the disk of its time. -/
def runAll (s : Index) (steps : List (Disk × Action)) : Index :=
  steps.foldl (fun s step => step.2.run step.1 s) s

theorem appended_runAll (s : Index) (steps : List (Disk × Action)) :
    Appended s (runAll s steps) := by
  induction steps generalizing s with
  | nil => exact .refl s
  | cons step steps ih => exact (moves_run step.1 s step.2).appended.trans (ih _)

/-- **Records, edges and global files are only ever added.** Whatever actions are taken from
any index on, one or many, on whatever disks and with whatever success: a file that has a
record keeps one, its edges stay the first ones of that record, and the global files stay
the first of the global files. -/
theorem store_append_only (s : Index) (steps : List (Disk × Action)) :
    (∀ k r, s.files.get? k = some r → ∃ r', (runAll s steps).files.get? k = some r' ∧
      r.dependencies <+: r'.dependencies) ∧
    s.globals <+: (runAll s steps).globals :=
  ⟨(appended_runAll s steps).records, (appended_runAll s steps).globals⟩

end Service

end LuaSymbols
