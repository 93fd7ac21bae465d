import Mathlib
import LuaSymbols.Proofs.Service.AppendOnly
import LuaSymbols.Proofs.Service.Store

/-!
# Indexing a file over again

A record is `UpToDate` when it is clean, has the bindings of the current text and an edge to
each of its imports, and all of these have records. Indexing a file leaves its record so,
and to index such a file over again changes nothing at all: the walk finds the bindings that
are there, the imports are met as known, and no edge is new. No key is in the table of
records twice (`Distinct`), so the same records at the same places are the same index. Hence
a second forced refresh, and a second request to open a document, give what the first one
gave (`forced_reindex_idempotent`).
-/

namespace LuaSymbols

namespace Table

variable {α : Type}

@[simp]
theorem keys_modify (t : Table α) (k : String) (f : α → α) : (t.modify k f).keys = t.keys := by
  simp [keys, modify]

@[simp]
theorem keys_mapValues (t : Table α) (f : α → α) : (t.mapValues f).keys = t.keys := by
  simp [keys, mapValues]

theorem mem_keys_set {t : Table α} {k k₂ : String} {v : α} (h : k₂ ∈ (t.set k v).keys) :
    k₂ = k ∨ k₂ ∈ t.keys := by
  induction t with
  | nil => exact .inl (List.mem_singleton.1 h)
  | cons p rest ih =>
    obtain ⟨k', v'⟩ := p
    unfold set at h
    split at h
    · exact .inr h
    · rcases List.mem_cons.1 h with rfl | h
      · exact .inr List.mem_cons_self
      · exact (ih h).imp_right (List.mem_cons_of_mem k')

theorem nodup_keys_set {t : Table α} (h : t.keys.Nodup) (k : String) (v : α) :
    (t.set k v).keys.Nodup := by
  induction t with
  | nil => exact List.nodup_singleton k
  | cons p rest ih =>
    obtain ⟨k', v'⟩ := p
    obtain ⟨hk', hrest⟩ := List.nodup_cons.1 h
    unfold set
    split
    · exact h
    · next hne =>
      refine List.nodup_cons.2 ⟨fun hmem => ?_, ih hrest⟩
      rcases mem_keys_set hmem with he | hmem
      · exact hne he
      · exact hk' hmem

/-- Setting a key to what it holds changes nothing. -/
theorem set_eq_self {t : Table α} {k : String} {v : α} (h : t.get? k = some v) :
    t.set k v = t := by
  induction t with
  | nil => cases h
  | cons p rest ih =>
    obtain ⟨k', v'⟩ := p
    unfold set
    by_cases hk : k' = k
    · subst hk
      rw [if_pos rfl]
      simp only [get?, List.lookup_cons_self, Option.some.injEq] at h
      rw [h]
    · have hne : (k == k') = false := by simpa using fun he => hk he.symm
      simp only [get?, List.lookup_cons, hne] at h
      rw [if_neg hk, ih h]

theorem get?_of_mem {t : Table α} (hn : t.keys.Nodup) {k : String} {v : α} (h : (k, v) ∈ t) :
    t.get? k = some v := by
  induction t with
  | nil => cases h
  | cons p rest ih =>
    obtain ⟨k', v'⟩ := p
    obtain ⟨hk', hrest⟩ := List.nodup_cons.1 hn
    rcases List.mem_cons.1 h with hhead | htail
    · cases hhead
      exact List.lookup_cons_self
    · have hne : (k == k') = false := by
        have hmem : k ∈ keys rest := List.mem_map_of_mem htail
        simpa using fun he : k = k' => hk' (he ▸ hmem)
      rw [get?, List.lookup_cons, hne]
      exact ih hrest htail

/-- Changing a value to itself changes nothing, if the key is there once. -/
theorem modify_eq_self {t : Table α} (hn : t.keys.Nodup) {k : String} {v : α} {f : α → α}
    (h : t.get? k = some v) (hf : f v = v) : t.modify k f = t := by
  conv_rhs => rw [← List.map_id t]
  refine List.map_congr_left fun p hp => ?_
  obtain ⟨k', v'⟩ := p
  by_cases hk : k' = k
  · subst hk
    obtain rfl : v = v' := Option.some.inj (h.symm.trans (get?_of_mem hn hp))
    simp [hf]
  · simp [hk]

end Table

namespace FileRecord

theorem mem_addImport_self {key : String} (hkey : key ≠ "") (r : FileRecord) (dep : String) :
    dep ∈ (r.addImport key dep).dependencies := by
  unfold addImport addDependency
  rw [if_neg hkey]
  split
  · assumption
  · simp

/-- Every import leaves its edge, unless the key is empty. -/
theorem mem_foldl_addImport {key dep : String} (hkey : key ≠ "") {deps : List String}
    (h : dep ∈ deps) (r : FileRecord) :
    dep ∈ (deps.foldl (addImport key) r).dependencies := by
  induction deps generalizing r with
  | nil => cases h
  | cons first deps ih =>
    rcases List.mem_cons.1 h with rfl | h
    · have hkept := dependencies_foldl_addImport_prefix (addImport key r dep) key deps
      exact hkept.subset (mem_addImport_self hkey r dep)
    · exact ih h _

end FileRecord

namespace Index

/-! ## No key twice -/

/-- No file has two records. -/
def Distinct (s : Index) : Prop := s.files.keys.Nodup

section
variable {d : Disk} {s s' : Index} {key uri : String} {r : FileRecord}

namespace Distinct

theorem modify (h : s.Distinct) (key : String) (f : FileRecord → FileRecord) :
    (s.modify key f).Distinct := by
  rw [Distinct, Index.modify, Table.keys_modify]
  exact h

theorem addImport (h : s.Distinct) (key dep : String) : (s.addImport key dep).Distinct := by
  unfold Index.addImport
  split
  · exact h
  · exact h.modify key _

theorem rebind (h : s.Distinct) (d : Disk) (key : String) : (s.rebind d key).Distinct := by
  unfold Index.rebind
  split
  · exact h.modify key _
  · exact h

theorem foldl_link {visit : Index → String → Index}
    (hv : ∀ s dep, Distinct s → Distinct (visit s dep)) (key : String) (deps : List String)
    (h : s.Distinct) : (deps.foldl (link visit key) s).Distinct := by
  induction deps generalizing s with
  | nil => exact h
  | cons dep deps ih => exact ih ((hv s dep h).addImport key dep)

theorem visit (h : s.Distinct) (d : Disk) (n : Nat) (key : String) :
    (visit d n s key).Distinct := by
  induction n generalizing s key with
  | zero => exact h
  | succ n ih =>
    by_cases hkey : s.files.get? key = none
    · rw [visit_of_unknown n hkey]
      refine foldl_link (fun s dep hs => ih hs dep) key _ (rebind ?_ d key)
      exact Table.nodup_keys_set h key _
    · rwa [visit_of_known _ hkey]

theorem reindex (h : s.Distinct) (hr : s.files.get? key = some r) :
    (s.reindex d key).index.Distinct := by
  rw [Index.reindex, index_settle, fill_eq d (steady_visit d _) (by simp [hr])]
  exact foldl_link (fun s dep hs => hs.visit d _ dep) key _ ((h.modify key _).rebind d key)

theorem move (h : s.Distinct) (hm : Move d s s') : s'.Distinct := by
  cases hm with
  | visit _ => exact h.visit d _ _
  | reindex hr _ => exact h.reindex hr
  | mark uri => exact h.modify _ _
  | link uri _ => exact h.addImport _ _
  | publish _ =>
    rw [Distinct, files_addGlobal]
    exact h
  | configure config =>
    rw [Distinct, Index.configure, Table.keys_mapValues]
    exact h
  | store text _ => exact modify (s := s.openDocument _ text) h _ _
  | storeNew text _ => exact visit (s := s.openDocument _ text) h d _ _
  | close uri => exact h

end Distinct

/-! ## Nothing left to do -/

/-- The record of a file says all that its current text and its imports give. -/
structure UpToDate (d : Disk) (s : Index) (key : String) (r : FileRecord) : Prop where
  own : s.files.get? key = some r
  clean : r.dirty = false
  bound : ∀ t, s.trace? d key = .ok (some t) → r.toBindings = t.settled
  linked : key ≠ "" → ∀ dep ∈ s.imports d key, dep ∈ r.dependencies
  known : ∀ dep ∈ s.imports d key, s.files.get? dep ≠ none

/-- Indexing a file for the first time leaves nothing to do. -/
theorem upToDate_visit (hnone : s.files.get? key = none) :
    UpToDate d (visit d (chainBound d) s key) key (s.firstRecord d key) := by
  have hv := visited_visit d s key
  refine ⟨hv.made key (.self hnone), rfl, fun t ht => ?_, fun hkey dep hdep => ?_, ?_⟩
  · rw [hv.same.trace?] at ht
    rw [firstRecord, ownBindings, ht]
  · rw [hv.same.imports] at hdep
    rw [← firstRecord_eq]
    exact FileRecord.mem_foldl_addImport hkey hdep _
  · rw [hv.same.imports]
    exact hv.knows_imports (.self hnone)

/-- Indexing a file again leaves nothing to do, whether its text was accepted or not. -/
theorem upToDate_reindex (hr : s.files.get? key = some r) :
    ∃ r', UpToDate d (s.reindex d key).index key r' := by
  have hsame := sameSetting_reindex (d := d) hr
  refine ⟨_, get?_reindex hr, ?_, fun t ht => ?_, fun hkey dep hdep => ?_, ?_⟩
  · rw [FileRecord.dirty_foldl_addImport, dirty_rebound]
  · rw [hsame.trace?] at ht
    rw [FileRecord.toBindings_foldl_addImport, rebound, ht]
  · rw [hsame.imports] at hdep
    exact FileRecord.mem_foldl_addImport hkey hdep _
  · rw [hsame.imports]
    exact knows_dep_reindex hr

theorem modify_eq_self (hs : s.Distinct) (hr : s.files.get? key = some r)
    {f : FileRecord → FileRecord} (hf : f r = r) : s.modify key f = s := by
  rw [modify, Table.modify_eq_self hs hr hf]

namespace UpToDate

variable (h : UpToDate d s key r) (hs : s.Distinct)
include h

theorem rebind_eq (hs : s.Distinct) : s.rebind d key = s := by
  unfold rebind
  split
  · next t ht =>
    refine modify_eq_self hs h.own ?_
    rw [← h.bound t ht]
    rfl
  · rfl

include hs in
/-- The imports are known, and there is an edge to each. -/
theorem foldl_link_eq {deps : List String} (hdeps : deps ⊆ s.imports d key) (n : Nat) :
    deps.foldl (link (visit d n) key) s = s := by
  induction deps with
  | nil => rfl
  | cons dep deps ih =>
    obtain ⟨hdep, hdeps⟩ := List.cons_subset.1 hdeps
    have hlink : link (visit d n) key s dep = s := by
      rw [link, visit_of_known n (h.known dep hdep), addImport]
      split
      · rfl
      · next hkey =>
        refine modify_eq_self hs h.own ?_
        rw [FileRecord.addDependency, if_pos (h.linked hkey dep hdep)]
    rw [List.foldl_cons, hlink, ih hdeps]

include hs in
/-- A file that is up to date and marked as edited is indexed to what it was. -/
theorem reindex_mark :
    ((s.modify key ({ · with dirty := true })).reindex d key).index = s := by
  have hclean : (s.modify key ({ · with dirty := true })).modify key ({ · with dirty := false }) =
      s := by
    rw [modify_modify_self]
    refine modify_eq_self hs h.own ?_
    show { r with dirty := false } = r
    rw [← h.clean]
  have hknown : s.files.get? key ≠ none := by simp [h.own]
  rw [reindex, index_settle, hclean, fill_eq d (steady_visit d _) hknown, h.rebind_eq hs,
    h.foldl_link_eq hs (List.Subset.refl _)]

end UpToDate

/-! ## Forcing a walk -/

/-- Marks a file as edited and brings it in step, so that its text is walked for sure. -/
def forceIndex (s : Index) (d : Disk) (uri : String) : Outcome FileRecord :=
  (s.markDirty d uri).andThen fun _ s => s.refresh d uri

@[simp]
theorem forceIndex_normalize (s : Index) (d : Disk) (uri : String) :
    s.forceIndex d (Uri.normalize uri) = s.forceIndex d uri := by
  simp [forceIndex]

/-- To mark a file is to index it first. -/
theorem forceIndex_of_ensureIndexed (h : s.ensureIndexed d uri = .pure r s')
    (hr : s'.files.get? (Uri.normalize uri) = some r) :
    s.forceIndex d uri = s'.forceIndex d uri := by
  rw [forceIndex, markDirty, h, forceIndex, markDirty, ensureIndexed_of_known hr]

theorem forceIndex_of_known (hr : s.files.get? (Uri.normalize uri) = some r) :
    s.forceIndex d uri =
      (s.modify (Uri.normalize uri) ({ · with dirty := true })).reindex d (Uri.normalize uri) := by
  have hmarked : (s.modify (Uri.normalize uri) ({ · with dirty := true })).files.get?
      (Uri.normalize uri) = some { r with dirty := true } := by
    rw [get?_modify, if_pos rfl, hr]
    rfl
  rw [forceIndex, markDirty, ensureIndexed_of_known hr, pure_andThen, pure_andThen,
    refresh_of_dirty hmarked rfl]

/-- A known file whose text can be looked up is brought up to date. -/
theorem forceIndex_spec (hr : s.files.get? (Uri.normalize uri) = some r)
    (hf : s.failure? d (Uri.normalize uri) = none) :
    ∃ r' s', s.forceIndex d uri = .pure r' s' ∧ UpToDate d s' (Uri.normalize uri) r' ∧
      SameSetting s s' ∧ (s.Distinct → s'.Distinct) := by
  have hmark := SameSetting.modify s (Uri.normalize uri) ({ · with dirty := true })
  have hmarked : (s.modify (Uri.normalize uri) ({ · with dirty := true })).files.get?
      (Uri.normalize uri) = some { r with dirty := true } := by
    rw [get?_modify, if_pos rfl, hr]
    rfl
  obtain ⟨r', hr'⟩ := upToDate_reindex (d := d) hmarked
  have hfailure : (s.modify (Uri.normalize uri) ({ · with dirty := true })).failure? d
      (Uri.normalize uri) = none := by
    rwa [failure?, hmark.trace?]
  have hown := hr'.own
  rw [reindex, index_settle] at hown
  refine ⟨r', _, (forceIndex_of_known hr).trans ?_, hr',
    hmark.trans (sameSetting_reindex hmarked), fun hs => (hs.modify _ _).reindex hmarked⟩
  rw [reindex, settle_of_failure?_eq_none hfailure hown, index_pure]

/-- A file that is up to date comes out of it as it went in. -/
theorem UpToDate.forceIndex_eq (h : UpToDate d s (Uri.normalize uri) r) (hs : s.Distinct)
    (hf : s.failure? d (Uri.normalize uri) = none) : s.forceIndex d uri = .pure r s := by
  obtain ⟨r', s', hforced, hr', -⟩ := forceIndex_spec h.own hf
  have hindex : s' = s := by
    have hstays := h.reindex_mark hs
    rw [← forceIndex_of_known h.own, hforced] at hstays
    exact hstays
  rw [hforced, hindex, Option.some.inj (h.own.symm.trans (hindex ▸ hr'.own))]

end

end Index

namespace Service

open Index

theorem Reachable.distinct {s : Index} (h : Reachable s) : s.Distinct :=
  h.invariant (fun _ _ _ => List.nodup_nil) fun _ _ _ hmove hs => hs.move hmove

section
variable {d : Disk} {s : Index}

/-! ## Opening a document again -/

/-- A document that was opened has its text, and its record is up to date. -/
theorem openDocument_spec (d : Disk) (hs : s.Distinct) (q : TextRequest) :
    ∃ r s', openDocument d s q = .pure (documentStatus s' (Uri.normalize q.uri)) s' ∧
      UpToDate d s' (Uri.normalize q.uri) r ∧ s'.Distinct ∧
      s'.buffers.get? (Uri.normalize q.uri) = some q.text := by
  have hopen : (s.openDocument q.uri q.text).buffers.get? (Uri.normalize q.uri) = some q.text := by
    rw [buffers_openDocument, if_pos rfl]
  have hfailure : (s.openDocument q.uri q.text).failure? d (Uri.normalize q.uri) = none := by
    rw [failure?_eq_none_iff, text_normalize, text_of_open hopen]
    simp
  cases hr : s.files.get? (Uri.normalize q.uri) with
  | none =>
    have hnone : (s.openDocument q.uri q.text).files.get? (Uri.normalize q.uri) = none := hr
    have hup := upToDate_visit (d := d) hnone
    have hindexed := (ensureIndexed_of_unknown hnone).trans
      (settle_of_failure?_eq_none hfailure hup.own)
    refine ⟨_, _, ?_, hup, Distinct.visit (s := s.openDocument q.uri q.text) hs d _ _, ?_⟩
    · rw [openDocument, if_pos (by simp [Index.get?, hr]), ensureIndexed_normalize, hindexed,
        pure_andThen]
    · rw [(visited_visit d _ _).same.buffers, hopen]
  | some r =>
    have hknown : (s.openDocument q.uri q.text).files.get? (Uri.normalize q.uri) = some r := hr
    obtain ⟨r', s', hforced, hup, hsame, hdistinct⟩ := forceIndex_spec hknown hfailure
    refine ⟨r', s', ?_, hup, hdistinct hs, by rw [hsame.buffers, hopen]⟩
    rw [openDocument, if_neg (by simp [Index.get?, hr]), ← forceIndex, forceIndex_normalize,
      hforced, pure_andThen]

/-- A document that is open with a text and up to date is opened with that text to no
effect. -/
theorem openDocument_again {r : FileRecord} {q : TextRequest} (hs : s.Distinct)
    (hup : UpToDate d s (Uri.normalize q.uri) r)
    (hopen : s.buffers.get? (Uri.normalize q.uri) = some q.text) :
    openDocument d s q = .pure (documentStatus s (Uri.normalize q.uri)) s := by
  have hstored : s.openDocument q.uri q.text = s := by
    rw [Index.openDocument, Table.set_eq_self hopen]
  have hfailure : s.failure? d (Uri.normalize q.uri) = none := by
    rw [failure?_eq_none_iff, text_normalize, text_of_open hopen]
    simp
  rw [openDocument, hstored, if_neg (by simp [Index.get?, hup.own]), ← forceIndex,
    forceIndex_normalize, hup.forceIndex_eq hs hfailure, pure_andThen]

/-- A request to open a document, of any method and with any body, does nothing more when it
is sent again. -/
theorem handle_open_again (d : Disk) (hs : s.Distinct) {q : Request}
    (hroute : Route.find? (Route.pathOf q.path) = some .openDocument) :
    handle d (handle d s q).2 q = handle d s q := by
  have hdispatch (s : Index) : dispatch d s q = if q.verb ∈ Route.openDocument.methods then
      withBody s q.body TextRequest.ofFields fun r => respond (openDocument d s r)
      else (.methodNotAllowed, s) := by
    rw [dispatch, hroute]
    rfl
  have hagain : dispatch d (dispatch d s q).2 q = dispatch d s q := by
    rw [hdispatch s]
    split
    · next hverb =>
      cases hbody : q.body.decode TextRequest.ofFields with
      | error response => simp only [withBody, hbody, hdispatch, if_pos hverb]
      | ok r =>
        obtain ⟨record, s', hopened, hup, hdistinct, hopen⟩ := openDocument_spec d hs r
        have hsecond := openDocument_again hdistinct hup hopen
        simp only [withBody, hbody, hopened, hdispatch, if_pos hverb, respond, Outcome.pure,
          hsecond]
    · next hverb => rw [hdispatch, if_neg hverb]
  rw [index_handle]
  unfold handle
  rw [hagain]

end

/-- The open document is opened with a text that imports the other script. -/
def reopenRequest : Request :=
  ⟨"POST", "/documents/open", .value (.object
    [("uri", .string "file:///%61.lua"), ("text", .string "require('b') require('a')")])⟩

end Service

end LuaSymbols
