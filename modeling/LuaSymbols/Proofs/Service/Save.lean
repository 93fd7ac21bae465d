import Mathlib
import LuaSymbols.Proofs.Service.OpenDocuments

/-!
# Saving a document

A save with a text is to bring the record of its file in step with that text. The
service compares the text with the current one of the file, not with the one that was
indexed last, and walks anew only where the two differ or the record is missing or dirty.
For an open document the current text is the one the record keeps up with, so nothing
is missed. For a closed one it is that on disk, which may have changed behind the index:
`save_in_step_iff` says exactly when such a save is lost.
-/

namespace LuaSymbols

theorem Table.modify_of_get?_eq_none {α : Type} {t : Table α} {k : String} (h : t.get? k = none)
    (f : α → α) : t.modify k f = t := by
  induction t with
  | nil => rfl
  | cons p rest ih =>
    obtain ⟨k', v⟩ := p
    simp only [get?, List.lookup_cons] at h ih
    split at h
    · cases h
    · next hne =>
      have hk : k' ≠ k := by
        rintro rfl
        simp at hne
      simpa [modify, hk] using ih h

namespace Index

/-- The record of a file is clean and has the given bindings. -/
def InStep (s : Index) (uri : String) (b : Bindings) : Prop :=
  ∃ r, s.get? uri = some r ∧ r.dirty = false ∧ r.toBindings = b

section
variable {d : Disk} {s : Index} {uri text : String} {t : Trace}

/-- Where there is something to walk, a refresh brings the record in step. -/
theorem inStep_refresh (htext : s.text d uri = .ok (some text))
    (ht : s.traceOf? (Uri.normalize uri) text = some t)
    (hstale : ∀ r, s.get? uri = some r → r.dirty = true) :
    (s.refresh d uri).index.InStep uri t.settled := by
  have htrace : s.trace? d (Uri.normalize uri) = .ok (some t) := by
    rw [trace?_of_text ((text_normalize s d uri).trans htext), ht]
  cases hr : s.files.get? (Uri.normalize uri) with
  | none =>
    rw [refresh_of_unknown hr, ensureIndexed_of_unknown hr, index_settle]
    refine ⟨_, (visited_visit d s _).made _ (.self hr), rfl, ?_⟩
    rw [firstRecord, ownBindings, htrace]
  | some r =>
    rw [refresh_of_dirty hr (hstale r hr)]
    refine ⟨_, get?_reindex hr, ?_, ?_⟩
    · rw [FileRecord.dirty_foldl_addImport, rebound, htrace]
    · rw [FileRecord.toBindings_foldl_addImport, rebound, htrace]

/-- The index in which a text is stored as edited. A file without a record has nothing
to mark. -/
def edited (s : Index) (uri text : String) : Index :=
  (s.openDocument uri text).modify (Uri.normalize uri) ({ · with dirty := true })

@[simp]
theorem edited_normalize (s : Index) (uri text : String) :
    s.edited (Uri.normalize uri) text = s.edited uri text := by
  simp [edited]

theorem inStep_refresh_edited (ht : s.traceOf? (Uri.normalize uri) text = some t) :
    ((s.edited uri text).refresh d uri).index.InStep uri t.settled := by
  have hopen : (s.edited uri text).buffers.get? (Uri.normalize uri) = some text :=
    (buffers_openDocument s uri text _).trans (if_pos rfl)
  refine inStep_refresh (text_of_open hopen) ht fun r hr => ?_
  rw [get?, edited, get?_modify, if_pos rfl] at hr
  obtain ⟨r', -, rfl⟩ := Option.map_eq_some_iff.1 hr
  rfl

end

end Index

namespace Service

open Index

section
variable {d : Disk} {s : Index} {uri text : String}

/-- A text that is not the current one is stored as edited. -/
theorem storeSaved_of_ne {current : Option String} (h : current ≠ some text) :
    storeSaved d s uri current (some text) = .pure () (s.edited uri text) := by
  rw [storeSaved, if_neg h]
  dsimp only
  cases hr : s.files.get? (Uri.normalize uri) with
  | none =>
    have he : s.edited uri text = s.openDocument uri text := by
      rw [edited, Index.modify, files_openDocument, Table.modify_of_get?_eq_none hr]
      rfl
    rw [if_neg (by simp [Index.get?, hr]), he]
  | some r =>
    rw [if_pos (by simp [Index.get?, hr]), markDirty,
      ensureIndexed_of_known (s := s.openDocument uri text) hr]
    rfl

/-- What a save with a text leaves. -/
theorem index_saveDocument (d : Disk) (s : Index) (uri text : String) :
    (saveDocument d s ⟨uri, some text⟩).index =
      if s.text d uri = .error .embeddedNul then s
      else if s.text d uri = .ok (some text) then (s.refresh d uri).index
      else ((s.edited uri text).refresh d uri).index := by
  have hend (o : Outcome FileRecord) (f : Index → Json) :
      (o.andThen fun _ s => .pure (f s) s).index = o.index := by
    obtain ⟨result, index⟩ := o
    cases result <;> rfl
  have hstored (current : Option String) :
      ((storeSaved d s (Uri.normalize uri) current (some text)).andThen fun _ s =>
        (s.refresh d uri).andThen fun _ s =>
          .pure (documentStatus s (Uri.normalize uri)) s).index =
        if current = some text then (s.refresh d uri).index
        else ((s.edited uri text).refresh d uri).index := by
    by_cases h : current = some text
    · rw [if_pos h, storeSaved, if_pos h, pure_andThen, hend]
    · rw [if_neg h, storeSaved_of_ne h, pure_andThen, hend, edited_normalize]
  simp only [saveDocument, text_normalize, refresh_normalize]
  rcases h : s.text d uri with e | current
  · cases e with
    | embeddedNul => simp
    | _ => simp [hstored, Except.toOption]
  · simp [hstored, Except.toOption]

theorem index_handle_save {q : Request} {r : SaveRequest}
    (hroute : Route.find? (Route.pathOf q.path) = some .saveDocument) (hverb : q.verb = "POST")
    (hbody : q.body.decode SaveRequest.ofFields = .ok r) :
    (handle d s q).2 = (saveDocument d s r).index := by
  rw [index_handle, dispatch, hroute]
  dsimp only
  rw [if_pos (by simp [hverb, Route.methods]), answer, withBody, hbody]
  exact index_respond _

/-- The service sees nothing new in a save: the document is closed, and either its path
cannot be looked up for a NUL, or its file has the text already and its record is
clean. -/
def Unnoticed (d : Disk) (s : Index) (uri text : String) : Prop :=
  s.isOpen uri = false ∧ ('\x00' ∈ (Uri.toPath (Uri.normalize uri)).toList ∨
    d.readText (Uri.toPath (Uri.normalize uri)) = .ok text ∧
      ∃ r, s.get? uri = some r ∧ r.dirty = false)

/-- A save that goes unnoticed changes nothing. -/
theorem index_saveDocument_of_unnoticed (h : Unnoticed d s uri text) :
    (saveDocument d s ⟨uri, some text⟩).index = s := by
  obtain ⟨hclosed, h⟩ := h
  rw [isOpen_eq_false_iff] at hclosed
  rw [index_saveDocument]
  split
  · rfl
  · next hnul =>
    rw [text_eq_embeddedNul_iff hclosed] at hnul
    obtain ⟨hread, r, hr, hclean⟩ := h.resolve_left hnul
    rw [if_pos ((text_of_closed_iff hclosed).2 hread), refresh_of_clean hr hclean, index_pure]

/-- Any other save brings the record in step. An open document may be clean already; its
record then has the bindings of the text it is known to keep up with. -/
theorem inStep_saveDocument {t : Trace} (hs : s.Synced) (h : ¬ Unnoticed d s uri text)
    (ht : s.traceOf? (Uri.normalize uri) text = some t) :
    (saveDocument d s ⟨uri, some text⟩).index.InStep uri t.settled := by
  have hnul : s.text d uri ≠ .error .embeddedNul := by
    intro hnul
    cases hopen : s.buffers.get? (Uri.normalize uri) with
    | none =>
      exact h ⟨isOpen_eq_false_iff.2 hopen, .inl ((text_eq_embeddedNul_iff hopen).1 hnul)⟩
    | some text₀ =>
      rw [text_of_open hopen] at hnul
      cases hnul
  rw [index_saveDocument, if_neg hnul]
  split
  · next htext =>
    by_cases hstale : ∀ r, s.get? uri = some r → r.dirty = true
    · exact inStep_refresh htext ht hstale
    · push Not at hstale
      obtain ⟨r, hr, hclean⟩ := hstale
      replace hclean : r.dirty = false := by simpa using hclean
      rw [refresh_of_clean hr hclean, index_pure]
      cases hopen : s.buffers.get? (Uri.normalize uri) with
      | none =>
        exact absurd ⟨isOpen_eq_false_iff.2 hopen,
          .inr ⟨(text_of_closed_iff hopen).1 htext, r, hr, hclean⟩⟩ h
      | some text₀ =>
        rw [text_of_open hopen] at htext
        cases htext
        obtain ⟨-, r', hr', hsync⟩ := hs _ _ hopen
        obtain rfl : r' = r := Option.some.inj (hr'.symm.trans hr)
        exact ⟨r', hr, hclean, hsync.resolve_left (by simp [hclean]) t ht⟩
  · exact inStep_refresh_edited ht

/-- **When a save is lost.** After any run, on any disk, a save of a text that the dialect
accepts leaves the record of its file clean and with the bindings of the text, unless the
service sees nothing new in it and the record was not so before. -/
theorem save_in_step_iff (hs : Reachable s) (d : Disk) {q : Request} {root : Node}
    (hroute : Route.find? (Route.pathOf q.path) = some .saveDocument) (hverb : q.verb = "POST")
    (hbody : q.body.decode SaveRequest.ofFields = .ok ⟨uri, some text⟩)
    (hload : Lua.load s.config.version text = .ok root)
    (hdepth : (Walk.trace ⟨Uri.normalize uri, .ofText text, s.config.includeKeywords⟩
      root).isComplete = true) (keywords : List String) :
    (handle d s q).2.InStep uri
        (Walk.trace ⟨Uri.normalize uri, .ofText text, keywords⟩ root).bindings ↔
      ¬ (Unnoticed d s uri text ∧ ¬ s.InStep uri
        (Walk.trace ⟨Uri.normalize uri, .ofText text, keywords⟩ root).bindings) := by
  have hwalk : (Walk.trace ⟨Uri.normalize uri, .ofText text, keywords⟩ root).bindings =
      (Walk.trace ⟨Uri.normalize uri, .ofText text, s.config.includeKeywords⟩ root).settled := by
    rw [Trace.settled, if_pos hdepth]
    exact Walk.bindings_trace_withKeywords ⟨_, .ofText text, s.config.includeKeywords⟩ keywords root
  rw [index_handle_save hroute hverb hbody, hwalk]
  by_cases h : Unnoticed d s uri text
  · rw [index_saveDocument_of_unnoticed h]
    simp [h]
  · simp only [h, false_and, not_false_eq_true, iff_true]
    exact inStep_saveDocument hs.synced h (traceOf?_of_load hload)

end

/-! ## A save that is lost -/

def saveRequest (text : String) : Request :=
  ⟨"POST", "/documents/save",
    .value (.object [("uri", .string "file:///a.lua"), ("text", .string text)])⟩

/-- The script was indexed when it held an assignment. -/
def indexedBefore : Index :=
  (Action.outline "file:///a.lua").run (scriptDisk "x = 1") (.create "/" "/" {})

theorem reachable_indexedBefore : Reachable indexedBefore := .step _ _ (.create "/" "/" {})

theorem load_function :
    ∃ root, Lua.load indexedBefore.config.version "function f() end" = .ok root := by
  cases h : Lua.load indexedBefore.config.version "function f() end" with
  | ok root => exact ⟨root, rfl⟩
  | error e =>
    have hok : (Lua.load indexedBefore.config.version "function f() end").toOption.isSome
        = true := by decide +kernel
    rw [h] at hok
    cases hok

/-- The script is changed on disk and then saved with its new text: the record stays. -/
theorem save_lost_of_written : ∃ (s : Index) (d : Disk) (q : Request) (uri text : String)
    (root : Node), Reachable s ∧
      Route.find? (Route.pathOf q.path) = some .saveDocument ∧ q.verb = "POST" ∧
      q.body.decode SaveRequest.ofFields = .ok ⟨uri, some text⟩ ∧
      Lua.load s.config.version text = .ok root ∧
      (Walk.trace ⟨Uri.normalize uri, .ofText text, s.config.includeKeywords⟩ root).isComplete
        = true ∧
      ¬ (handle d s q).2.InStep uri
        (Walk.trace ⟨Uri.normalize uri, .ofText text, s.config.includeKeywords⟩ root).bindings := by
  obtain ⟨root, hload⟩ := load_function
  have htrace : indexedBefore.traceOf? (Uri.normalize "file:///a.lua") "function f() end" =
    some _ := traceOf?_of_load hload
  refine ⟨indexedBefore, scriptDisk "function f() end", saveRequest "function f() end",
    "file:///a.lua", "function f() end", root, reachable_indexedBefore, by decide +kernel,
    by decide +kernel, by rfl, hload, ?_, ?_⟩
  · have hcomplete : (indexedBefore.traceOf? (Uri.normalize "file:///a.lua")
        "function f() end").all Trace.isComplete = true := by decide +kernel
    rw [htrace] at hcomplete
    exact hcomplete
  · rintro ⟨r, hr, -, hb⟩
    have hold : ((handle (scriptDisk "function f() end") indexedBefore
        (saveRequest "function f() end")).2.get? "file:///a.lua").map (·.outline.length) =
        some 0 := by decide +kernel
    have hnew : (indexedBefore.traceOf? (Uri.normalize "file:///a.lua") "function f() end").map
        (·.bindings.outline.length) = some 1 := by decide +kernel
    rw [hr, Option.map_some, hb] at hold
    rw [htrace, Option.map_some, hold] at hnew
    cases hnew

/-- The script is unchanged on disk and saved with a new text: the record follows. -/
theorem save_in_step_of_unwritten : ∃ root,
    Lua.load indexedBefore.config.version "function f() end" = .ok root ∧
    (handle (scriptDisk "x = 1") indexedBefore (saveRequest "function f() end")).2.InStep
      "file:///a.lua" (Walk.trace ⟨Uri.normalize "file:///a.lua", .ofText "function f() end",
        defaultKeywords⟩ root).bindings := by
  obtain ⟨root, hload⟩ := load_function
  have hcomplete : (indexedBefore.traceOf? (Uri.normalize "file:///a.lua")
      "function f() end").all Trace.isComplete = true := by decide +kernel
  have hread : (scriptDisk "x = 1").readText (Uri.toPath (Uri.normalize "file:///a.lua")) ≠
      .ok "function f() end" := by decide +kernel
  have hnul : '\x00' ∉ (Uri.toPath (Uri.normalize "file:///a.lua")).toList := by decide +kernel
  rw [traceOf?_of_load hload] at hcomplete
  refine ⟨root, hload, ?_⟩
  refine (save_in_step_iff reachable_indexedBefore (scriptDisk "x = 1") (by decide +kernel)
    (by decide +kernel) (by rfl) hload hcomplete defaultKeywords).2 fun h => ?_
  rcases h.1.2 with h | h
  · exact hnul h
  · exact hread h.1

end Service

end LuaSymbols
