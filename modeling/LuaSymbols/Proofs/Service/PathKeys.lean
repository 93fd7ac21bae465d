import Mathlib
import LuaSymbols.Proofs.Index.Growth
import LuaSymbols.Proofs.Service.Store
import LuaSymbols.Proofs.Uri.Standard

/-!
# One path, one record

A file is known by its key, and read at the path that the key names. Clients may spell that
path in ways that keys keep apart, so there can be two records for one path
(`two_records_of_dot`). In an `Orderly` run clients name files by standard keys, and no name
on the disk has a backslash; then there is one record for every path
(`one_record_per_path`).
-/

namespace LuaSymbols

namespace Checked

variable {α β : Type}

theorem exists_of_map {f : α → β} {c : Checked α} {b : β} (h : f <$> c = .valid b) :
    ∃ a, c = .valid a ∧ f a = b := by
  cases c with
  | valid a => exact ⟨a, rfl, Checked.valid.inj h⟩
  | invalid issues => cases h

theorem exists_of_seq {cf : Checked (α → β)} {c : Checked α} {b : β} (h : cf <*> c = .valid b) :
    ∃ f a, cf = .valid f ∧ c = .valid a ∧ f a = b := by
  cases cf with
  | valid f =>
    obtain ⟨a, hc, hb⟩ := exists_of_map h
    exact ⟨f, a, rfl, hc, hb⟩
  | invalid issues => cases c <;> cases h

end Checked

namespace Service

open Index

/-! ## The files that an action names -/

/-- The uri in a body. -/
def Body.uri? : Body → Option String
  | .value (.object fields) =>
    match fields.lookup "uri" with
    | some (.string uri) => some uri
    | _ => none
  | _ => none

/-- The keys of the files that an action is told of. -/
def Action.keys (d : Disk) : Action → List String
  | request r => r.body.uri?.toList.map Uri.normalize
  | ensureIndexed uri | markDirty uri | refresh uri | outline uri | definition uri _ _ =>
    [Uri.normalize uri]
  | indexDependency _ path _ => [Uri.ofPath d.cwd path]
  | scan _ _ | resolve _ _ _ | configure _ => []

theorem Body.exists_of_decode {α : Type} {b : Body} {decode : Json.Fields → Checked α} {a : α}
    (h : b.decode decode = .ok a) :
    ∃ fields, b = .value (.object fields) ∧ decode fields = .valid a := by
  unfold Body.decode at h
  split at h
  · cases h
  · cases h
  · cases h
  · next fields =>
    refine ⟨fields, rfl, ?_⟩
    unfold settle at h
    cases hc : decode fields with
    | valid a' =>
      rw [hc] at h
      cases h
      rfl
    | invalid issues =>
      rw [hc] at h
      cases h
  · cases h

theorem lookup_of_required {fields : Json.Fields} {name text : String}
    (h : Json.Fields.required fields name Json.nonEmptyText = .valid text) :
    fields.lookup name = some (.string text) := by
  unfold Json.Fields.required at h
  split at h
  · next j hj =>
    rw [hj]
    cases j with
    | string s =>
      by_cases hs : s = "" <;>
        simp_all [Json.nonEmptyText, Json.text, Checked.andThen, Checked.under, Checked.refuse]
    | _ => cases h
  · cases h

section
variable {b : Body}

theorem uri?_of_decode {α : Type} {decode : Json.Fields → Checked α} {uri : α → String}
    (hdecode : ∀ fields a, decode fields = .valid a →
      Json.Fields.required fields "uri" Json.nonEmptyText = .valid (uri a))
    {a : α} (h : b.decode decode = .ok a) : b.uri? = some (uri a) := by
  obtain ⟨fields, rfl, hfields⟩ := Body.exists_of_decode h
  simp only [Body.uri?, lookup_of_required (hdecode fields a hfields)]

theorem uri?_of_textRequest {r : TextRequest} (h : b.decode TextRequest.ofFields = .ok r) :
    b.uri? = some r.uri := by
  refine uri?_of_decode (fun fields a ha => ?_) h
  obtain ⟨f, text, hf, -, rfl⟩ := Checked.exists_of_seq ha
  obtain ⟨uri, huri, rfl⟩ := Checked.exists_of_map hf
  exact huri

theorem uri?_of_saveRequest {r : SaveRequest} (h : b.decode SaveRequest.ofFields = .ok r) :
    b.uri? = some r.uri := by
  refine uri?_of_decode (fun fields a ha => ?_) h
  obtain ⟨f, text, hf, -, rfl⟩ := Checked.exists_of_seq ha
  obtain ⟨uri, huri, rfl⟩ := Checked.exists_of_map hf
  exact huri

theorem uri?_of_uriRequest {r : UriRequest} (h : b.decode UriRequest.ofFields = .ok r) :
    b.uri? = some r.uri := by
  refine uri?_of_decode (fun fields a ha => ?_) h
  obtain ⟨uri, huri, rfl⟩ := Checked.exists_of_map ha
  exact huri

theorem uri?_of_definitionRequest {r : DefinitionRequest}
    (h : b.decode DefinitionRequest.ofFields = .ok r) : b.uri? = some r.uri := by
  refine uri?_of_decode (fun fields a ha => ?_) h
  obtain ⟨f, character, hf, -, rfl⟩ := Checked.exists_of_seq ha
  obtain ⟨g, line, hg, -, rfl⟩ := Checked.exists_of_seq hf
  obtain ⟨uri, huri, rfl⟩ := Checked.exists_of_map hg
  exact huri

end

/-! ## The records that an action adds -/

section
variable {P : String → Prop} {d : Disk}
  (hfiles : ∀ path, d.isFile path = true → P (Uri.ofPath d.cwd path))

include hfiles

/-- Storing a text adds no record. -/
theorem adds_store (s : Index) {uri : String} (text : String) (huri : P (Uri.normalize uri)) :
    Adds P s ((s.openDocument uri text).markDirty d uri).index :=
  (Adds.of_files fun _ hk => hk).trans (adds_markDirty hfiles _ huri)

theorem adds_openDocument (s : Index) {r : TextRequest} (huri : P (Uri.normalize r.uri)) :
    Adds P s (openDocument d s r).index := by
  have hkey : P (Uri.normalize (Uri.normalize r.uri)) := by simpa using huri
  refine Adds.andThen ?_ fun _ _ => .refl _
  split
  · exact (Adds.of_files fun _ hk => hk).trans (adds_ensureIndexed hfiles _ hkey)
  · rw [← openDocument_normalize]
    exact (adds_store hfiles s r.text hkey).andThen fun _ _ => adds_refresh hfiles _ hkey

theorem adds_changeDocument (s : Index) {r : TextRequest} (huri : P (Uri.normalize r.uri)) :
    Adds P s (changeDocument d s r).index := by
  have hkey : P (Uri.normalize (Uri.normalize r.uri)) := by simpa using huri
  refine Adds.andThen ?_ fun _ _ => .refl _
  rw [← openDocument_normalize]
  exact adds_store hfiles s r.text hkey

theorem adds_storeSaved (s : Index) {uri : String} (current text : Option String)
    (huri : P (Uri.normalize uri)) : Adds P s (storeSaved d s uri current text).index := by
  cases text with
  | none => exact .refl s
  | some t =>
    rw [storeSaved]
    split
    · exact .refl s
    dsimp only
    split
    · exact (adds_store hfiles s t huri).map
    · exact .of_files fun _ hk => hk

theorem adds_saveDocument (s : Index) {r : SaveRequest} (huri : P (Uri.normalize r.uri)) :
    Adds P s (saveDocument d s r).index := by
  have hkey : P (Uri.normalize (Uri.normalize r.uri)) := by simpa using huri
  unfold saveDocument
  dsimp only
  split
  · exact .refl s
  · exact (adds_storeSaved hfiles s _ _ hkey).andThen fun _ _ =>
      (adds_refresh hfiles _ hkey).andThen fun _ _ => .refl _

omit hfiles in
theorem adds_withBody {α : Type} {s : Index} {b : Body} {decode : Json.Fields → Checked α}
    {act : α → Response × Index} (h : ∀ a, b.decode decode = .ok a → Adds P s (act a).2) :
    Adds P s (withBody s b decode act).2 := by
  unfold withBody
  split
  · next a ha => exact h a ha
  · exact .refl s

theorem adds_answer (s : Index) (method : String) {b : Body}
    (h : ∀ uri, b.uri? = some uri → P (Uri.normalize uri)) (route : Route) :
    Adds P s (answer d s method b route).2 := by
  cases route with
  | openDocument =>
    refine adds_withBody fun r hr => ?_
    rw [index_respond]
    exact adds_openDocument hfiles s (h _ (uri?_of_textRequest hr))
  | changeDocument =>
    refine adds_withBody fun r hr => ?_
    rw [index_respond]
    exact adds_changeDocument hfiles s (h _ (uri?_of_textRequest hr))
  | saveDocument =>
    refine adds_withBody fun r hr => ?_
    rw [index_respond]
    exact adds_saveDocument hfiles s (h _ (uri?_of_saveRequest hr))
  | closeDocument =>
    refine adds_withBody fun r _ => ?_
    unfold closeDocument
    split <;> exact .of_files fun _ hk => hk
  | definition =>
    refine adds_withBody fun r hr => ?_
    rw [index_respond]
    exact (adds_definition hfiles s _ _ (h _ (uri?_of_definitionRequest hr))).map
  | outline =>
    refine adds_withBody fun r hr => ?_
    rw [index_respond]
    exact ((adds_refresh hfiles s (h _ (uri?_of_uriRequest hr))).map).map
  | configuration =>
    rw [answer]
    split
    · refine adds_withBody fun c _ => .of_files fun k hk => ?_
      simpa [Index.configure, Table.get?_mapValues] using hk
    · exact .refl s
  | root | health | ready | files | globals => exact .refl s

/-- An action adds records for files it is told of and for files on the disk. -/
theorem adds_run (s : Index) {a : Action} (h : ∀ k ∈ a.keys d, P k) : Adds P s (a.run d s) := by
  cases a with
  | request r =>
    show Adds P s (handle d s r).2
    rw [index_handle, dispatch]
    split
    · exact .refl s
    · split
      · refine adds_answer hfiles s _ (fun uri huri => ?_) _
        exact h _ (by simp [Action.keys, huri])
      · exact .refl s
  | scan root patterns => exact adds_scan hfiles s root patterns
  | ensureIndexed uri => exact adds_ensureIndexed hfiles s (h _ (by simp [Action.keys]))
  | markDirty uri => exact adds_markDirty hfiles s (h _ (by simp [Action.keys]))
  | refresh uri => exact adds_refresh hfiles s (h _ (by simp [Action.keys]))
  | outline uri => exact (adds_refresh hfiles s (h _ (by simp [Action.keys]))).map
  | indexDependency parent path isGlobal =>
    exact adds_indexDependency hfiles s parent isGlobal (h _ (by simp [Action.keys]))
  | resolve importer reference dotted => exact adds_resolve hfiles s importer reference dotted
  | definition uri line character =>
    exact adds_definition hfiles s line character (h _ (by simp [Action.keys]))
  | configure config =>
    refine .of_files fun k hk => ?_
    simpa [Action.run, Index.configure, Table.get?_mapValues] using hk

end

/-! ## Orderly runs -/

/-- The indexes of runs in which every file is named by a standard key, and no name on a
disk has a backslash in it. -/
inductive Orderly : Index → Prop where
  | create (cwd root : String) (config : Config) : Orderly (.create cwd root config)
  | step {s : Index} (d : Disk) (a : Action)
    (hdisk : ∀ e ∈ d.entries, ∀ name ∈ e.1, '\\' ∉ name)
    (hkeys : ∀ k ∈ a.keys d, Uri.Standard k) : Orderly s → Orderly (a.run d s)

theorem Orderly.reachable {s : Index} (h : Orderly s) : Reachable s := by
  induction h with
  | create cwd root config => exact .create cwd root config
  | step d a _ _ _ ih => exact .step d a ih

/-- Where no name has a backslash, the files have standard keys. -/
theorem standard_of_isFile {d : Disk} (hdisk : ∀ e ∈ d.entries, ∀ name ∈ e.1, '\\' ∉ name)
    {path : String} (h : d.isFile path = true) : Uri.Standard (Uri.ofPath d.cwd path) := by
  refine Uri.standard_ofPath fun hmem => ?_
  obtain ⟨e, he, hpath⟩ := Disk.absolute_of_isFile h
  have hspot (slashes : Nat) (hmem : '\\' ∈ (Disk.spotPath slashes e.1).toList) : False := by
    rw [Disk.spotPath, String.toList_ofList, List.mem_append,
      Path.mem_intercalate (by decide)] at hmem
    rcases hmem with hmem | ⟨name, hname, hmem⟩
    · exact absurd (List.eq_of_mem_replicate hmem) (by decide)
    · exact hdisk e he name hname hmem
  rcases hpath with hpath | hpath <;> rw [hpath] at hmem <;> exact hspot _ hmem

/-- All keys of an orderly run are standard. -/
theorem Orderly.standard {s : Index} (h : Orderly s) {k : String} (hk : s.files.get? k ≠ none) :
    Uri.Standard k := by
  induction h with
  | create cwd root config => exact absurd rfl hk
  | @step s d a hdisk hkeys _ ih =>
    rcases adds_run (P := Uri.Standard) (fun path => standard_of_isFile hdisk) s hkeys k hk
      with hold | hnew
    · exact ih hold
    · exact hnew

/-- **One path, one record.** After any run, records under two standard keys are for two
paths. So where there are two records for a path, one of them has a key that is not standard,
and in an orderly run there are none. -/
theorem one_record_per_path {s : Index} (h : Reachable s) :
    (∀ k₁ k₂ r₁ r₂, s.files.get? k₁ = some r₁ → s.files.get? k₂ = some r₂ →
      Uri.toPath k₁ = Uri.toPath k₂ → Uri.Standard k₁ → Uri.Standard k₂ → k₁ = k₂) ∧
    (Orderly s → ∀ k₁ k₂ r₁ r₂, s.files.get? k₁ = some r₁ → s.files.get? k₂ = some r₂ →
      Uri.toPath k₁ = Uri.toPath k₂ → k₁ = k₂) := by
  have hkeys (k₁ k₂ : String) (r₁ r₂ : FileRecord) (h₁ : s.files.get? k₁ = some r₁)
      (h₂ : s.files.get? k₂ = some r₂) (hpath : Uri.toPath k₁ = Uri.toPath k₂)
      (hk₁ : Uri.Standard k₁) (hk₂ : Uri.Standard k₂) : k₁ = k₂ :=
    hk₁.eq_of_toPath_eq hk₂ (h.sound.records k₁ r₁ h₁).normal (h.sound.records k₂ r₂ h₂).normal
      hpath
  refine ⟨hkeys, fun horderly k₁ k₂ r₁ r₂ h₁ h₂ hpath => ?_⟩
  exact hkeys k₁ k₂ r₁ r₂ h₁ h₂ hpath (horderly.standard (by simp [h₁]))
    (horderly.standard (by simp [h₂]))

theorem orderly_stocked : Orderly stocked := by
  have hdisk : ∀ e ∈ (scriptDisk "x = 1").entries, ∀ name ∈ e.1, '\\' ∉ name := by
    decide +kernel
  have hstandard {key : String} (name : List Char) (hname : Path.AreNames name)
      (hkey : Percent.decode key.toList = Uri.fileScheme ++ '/' :: '/' :: '/' :: name) :
      Uri.Standard key :=
    ⟨'/' :: name, hkey, 1, name, .inl rfl, rfl, hname⟩
  refine .step _ _ hdisk (fun k hk => ?_) (.step _ _ hdisk (fun k hk => ?_) (.create "/" "/" {}))
  · obtain rfl : k = "file:///a.lua" := by
      revert k
      decide +kernel
    exact hstandard "a.lua".toList (by decide +kernel) (by decide +kernel)
  · obtain rfl : k = "file:///c.lua" := by
      revert k
      decide +kernel
    exact hstandard "c.lua".toList (by decide +kernel) (by decide +kernel)

theorem one_record_per_path_stocked : ∃ r₁ r₂, stocked.files.get? "file:///a.lua" = some r₁ ∧
    stocked.files.get? "file:///c.lua" = some r₂ ∧
    Uri.toPath "file:///a.lua" ≠ Uri.toPath "file:///c.lua" := by
  have hknown : (stocked.files.get? "file:///a.lua").isSome = true ∧
      (stocked.files.get? "file:///c.lua").isSome = true := by
    decide +kernel
  obtain ⟨r₁, h₁⟩ := Option.isSome_iff_exists.1 hknown.1
  obtain ⟨r₂, h₂⟩ := Option.isSome_iff_exists.1 hknown.2
  refine ⟨r₁, r₂, h₁, h₂, fun hpath => ?_⟩
  have heq := (one_record_per_path orderly_stocked.reachable).2 orderly_stocked _ _ _ _ h₁ h₂ hpath
  exact absurd heq (by decide)

/-! ## Two records for one path -/

def outlineRequest (uri : String) : Request :=
  ⟨"POST", "/outline", .value (.object [("uri", .string uri)])⟩

/-- A script was asked for under two spellings of its path. -/
def spelledTwice : Index :=
  (Action.request (outlineRequest "file:///./a.lua")).run (scriptDisk "x = 1")
    ((Action.request (outlineRequest "file:///a.lua")).run (scriptDisk "x = 1")
      (.create "/" "/" {}))

/-- A dot in a path is kept in the key, and not in the path that the key names. -/
theorem two_records_of_dot : Reachable spelledTwice ∧
    ∃ r₁ r₂, spelledTwice.files.get? "file:///a.lua" = some r₁ ∧
      spelledTwice.files.get? "file:///./a.lua" = some r₂ ∧
      Uri.toPath "file:///a.lua" = Uri.toPath "file:///./a.lua" ∧
      "file:///a.lua" ≠ "file:///./a.lua" := by
  have hknown : (spelledTwice.files.get? "file:///a.lua").isSome = true ∧
      (spelledTwice.files.get? "file:///./a.lua").isSome = true := by
    decide +kernel
  obtain ⟨r₁, h₁⟩ := Option.isSome_iff_exists.1 hknown.1
  obtain ⟨r₂, h₂⟩ := Option.isSome_iff_exists.1 hknown.2
  exact ⟨.step _ _ (.step _ _ (.create "/" "/" {})), r₁, r₂, h₁, h₂, by decide +kernel,
    by decide⟩

end Service

end LuaSymbols
