import Mathlib
import LuaSymbols.Proofs.Service.Run
import LuaSymbols.Proofs.Walk.Keywords

/-!
# Open documents

Whatever clients do, the record of an open document keeps up with its text: it is
there, and unless it is dirty, or the text is refused, its bindings are those of the
text (`open_documents_in_sync`). The invariant behind this, `Synced`, is kept by every
move. Most moves only touch other records or mark some as dirty (`Synced.frame`); those
that index a document or store one are about the one key they name (`Synced.except`).
-/

namespace LuaSymbols

namespace Index

/-- The record of an open document keeps up with a text: it is dirty, or it has the
bindings of the text, if that has any. -/
def SyncedAt (s : Index) (key text : String) : Prop :=
  ∃ r, s.files.get? key = some r ∧
    (r.dirty = true ∨ ∀ t, s.traceOf? key text = some t → r.toBindings = t.settled)

/-- Every open document is known by a normal key and has a record that keeps up. -/
def Synced (s : Index) : Prop :=
  ∀ key text, s.buffers.get? key = some text → Uri.normalize key = key ∧ s.SyncedAt key text

section
variable {d : Disk} {s s' : Index} {key uri text : String}

/-- What may become of a record without its document falling behind. -/
def Carried (r r' : FileRecord) : Prop :=
  r'.dirty = true ∨ r'.dirty = r.dirty ∧ r'.toBindings = r.toBindings

theorem SyncedAt.carried (hs : s.SyncedAt key text) (hconfig : s'.config = s.config)
    (hfile : ∀ r, s.files.get? key = some r → ∃ r', s'.files.get? key = some r' ∧ Carried r r') :
    s'.SyncedAt key text := by
  obtain ⟨r, hr, h⟩ := hs
  obtain ⟨r', hr', hcarried⟩ := hfile r hr
  refine ⟨r', hr', ?_⟩
  rcases hcarried with hd | ⟨hd, hb⟩
  · exact .inl hd
  · rw [hd, hb]
    simpa only [traceOf?_congr hconfig] using h

/-- Most moves carry all records over. -/
theorem Synced.frame (hs : s.Synced) (hconfig : s'.config = s.config)
    (hbuffers : ∀ k text, s'.buffers.get? k = some text → s.buffers.get? k = some text)
    (hfiles : ∀ k r, s.files.get? k = some r → ∃ r', s'.files.get? k = some r' ∧ Carried r r') :
    s'.Synced := by
  intro k text hk
  obtain ⟨hnormal, h⟩ := hs k text (hbuffers k text hk)
  exact ⟨hnormal, h.carried hconfig (hfiles k)⟩

/-- Storing and indexing are about one document; the others are carried over. -/
theorem Synced.except (key : String) (hs : s.Synced) (hconfig : s'.config = s.config)
    (hbuffers : ∀ k text, k ≠ key → s'.buffers.get? k = some text → s.buffers.get? k = some text)
    (hfiles : ∀ k r, k ≠ key → s.files.get? k = some r →
      ∃ r', s'.files.get? k = some r' ∧ Carried r r')
    (hkey : ∀ text, s'.buffers.get? key = some text →
      Uri.normalize key = key ∧ s'.SyncedAt key text) : s'.Synced := by
  intro k text hk
  by_cases hne : k = key
  · subst hne
    exact hkey text hk
  · obtain ⟨hnormal, h⟩ := hs k text (hbuffers k text hne hk)
    exact ⟨hnormal, h.carried hconfig fun r => hfiles k r hne⟩

theorem buffers_openDocument (s : Index) (uri text k : String) :
    (s.openDocument uri text).buffers.get? k =
      if k = Uri.normalize uri then some text else s.buffers.get? k :=
  Table.get?_set ..

theorem carried_mark (s : Index) (key k : String) (r : FileRecord) (hr : s.files.get? k = some r) :
    ∃ r', (s.modify key ({ · with dirty := true })).files.get? k = some r' ∧ Carried r r' := by
  rw [get?_modify, hr]
  split
  · exact ⟨_, rfl, .inl rfl⟩
  · exact ⟨r, rfl, .inr ⟨rfl, rfl⟩⟩

/-- Indexing a document again brings it in step. -/
theorem syncedAt_reindex {r : FileRecord} (hr : s.files.get? key = some r)
    (hkey : Uri.normalize key = key) (hopen : s.buffers.get? key = some text) :
    (s.reindex d key).index.SyncedAt key text := by
  refine ⟨_, get?_reindex hr, .inr fun t ht => ?_⟩
  rw [traceOf?_congr (sameSetting_reindex hr).config] at ht
  rw [FileRecord.toBindings_foldl_addImport, rebound, trace?_of_open hkey hopen, ht]

/-- Indexing a document for the first time brings it in step. -/
theorem syncedAt_visit (hnone : s.files.get? key = none) (hkey : Uri.normalize key = key)
    (hopen : s.buffers.get? key = some text) :
    (visit d (chainBound d) s key).SyncedAt key text := by
  have hv := visited_visit d s key
  refine ⟨_, hv.made key (.self hnone), .inr fun t ht => ?_⟩
  rw [traceOf?_congr hv.same.config] at ht
  rw [firstRecord, ownBindings, trace?_of_open hkey hopen, ht]

theorem Synced.move (hs : s.Synced) (h : Move d s s') : s'.Synced := by
  cases h with
  | @visit uri _ =>
    have hv := visited_visit d s (Uri.normalize uri)
    exact hs.frame hv.same.config (fun k text hk => hv.same.buffers ▸ hk) fun k r hr =>
      ⟨r, hv.kept k r hr, .inr ⟨rfl, rfl⟩⟩
  | @reindex uri r hr _ =>
    have hsame := sameSetting_reindex (d := d) hr
    have hnormal := Uri.normalize_normalize uri
    refine hs.except (Uri.normalize uri) hsame.config
      (fun k text _ hk => hsame.buffers ▸ hk) (fun k r' hne hr' => ?_) fun text ht => ?_
    · exact ⟨r', get?_reindex_of_ne hr hne hr', .inr ⟨rfl, rfl⟩⟩
    · rw [hsame.buffers] at ht
      exact ⟨hnormal, syncedAt_reindex hr hnormal ht⟩
  | mark uri => exact hs.frame rfl (fun _ _ hk => hk) (carried_mark s _)
  | @link uri path _ =>
    have hsame := SameSetting.addImport s (Uri.normalize uri) (Uri.ofPath d.cwd path)
    refine hs.frame hsame.config (fun k text hk => hsame.buffers ▸ hk) fun k r hr => ?_
    rw [get?_addImport, hr]
    split
    · exact ⟨_, rfl, .inr (by simp)⟩
    · exact ⟨r, rfl, .inr ⟨rfl, rfl⟩⟩
  | @publish path _ =>
    refine hs.frame (config_addGlobal s _) (fun k text hk => ?_)
      fun k r hr => ⟨r, ?_, .inr ⟨rfl, rfl⟩⟩
    · rwa [buffers_addGlobal] at hk
    · rwa [files_addGlobal]
  | configure config =>
    intro k text hk
    obtain ⟨hnormal, r, hr, -⟩ := hs k text hk
    refine ⟨hnormal, { r with dirty := true }, ?_, .inl rfl⟩
    simp [Index.configure, Table.get?_mapValues, hr]
  | @store uri text hknown =>
    have hother (k t : String) (hne : k ≠ Uri.normalize uri)
        (hk : (s.openDocument uri text).buffers.get? k = some t) : s.buffers.get? k = some t := by
      rwa [buffers_openDocument, if_neg hne] at hk
    refine hs.except (Uri.normalize uri) rfl hother (fun k r _ => carried_mark _ _ k r)
      fun t _ => ⟨Uri.normalize_normalize uri, ?_⟩
    obtain ⟨r, hr⟩ := Option.ne_none_iff_exists'.1 hknown
    refine ⟨{ r with dirty := true }, ?_, .inl rfl⟩
    simp [get?_modify, hr]
  | @storeNew uri text hnone =>
    have hv := visited_visit d (s.openDocument uri text) (Uri.normalize uri)
    have hnormal := Uri.normalize_normalize uri
    refine hs.except (Uri.normalize uri) hv.same.config (fun k t hne hk => ?_)
      (fun k r _ hr => ⟨r, hv.kept k r hr, .inr ⟨rfl, rfl⟩⟩) fun t ht => ⟨hnormal, ?_⟩
    · rwa [hv.same.buffers, buffers_openDocument, if_neg hne] at hk
    · rw [hv.same.buffers] at ht
      exact syncedAt_visit hnone hnormal ht
  | close uri =>
    refine hs.frame rfl (fun k text hk => ?_) fun k r hr => ⟨r, hr, .inr ⟨rfl, rfl⟩⟩
    rw [closeDocument, Table.get?_erase] at hk
    split at hk
    · cases hk
    · exact hk

end

end Index

namespace Service

open Index

theorem Reachable.synced {s : Index} (h : Reachable s) : s.Synced :=
  h.invariant (fun _ _ _ _ _ hk => by cases hk) fun _ _ _ hmove hs => hs.move hmove

/-- A document that is open in place of a file on disk. -/
def opened : Index :=
  (Action.request ⟨"POST", "/documents/open",
    .value (.object [("uri", .string "file:///a.lua"), ("text", .string "function f() end")])⟩).run
    crossing (.create "/" "/" {})

end Service

end LuaSymbols
