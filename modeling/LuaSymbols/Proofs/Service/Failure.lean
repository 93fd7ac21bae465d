import Mathlib
import LuaSymbols.Proofs.Service.Snapshot

/-!
# Failures that reach the caller

A file that is missing, refused or too deep leaves its record without bindings and nothing
else happens. A path with a NUL in it is another matter: it cannot be looked up, and the
operation that has to does not return. Such a file is `Barred` while no document is open for
it. Each operation returns unless it has to read a barred file, and a query that does not
return is answered 500 (`failure_reaches_caller_iff`).

All texts here are Unicode. In the service a document may also hold a text with half of a
surrogate pair, which cannot be encoded; indexing it is a second way to fail (see
`Json.text`).
-/

namespace LuaSymbols

namespace Outcome

variable {α β : Type}

/-- The operation comes back with an answer. -/
def Returns (o : Outcome α) : Prop := ∃ a s, o = .pure a s

@[simp]
theorem returns_pure (a : α) (s : Index) : (Outcome.pure a s).Returns := ⟨a, s, rfl⟩

theorem not_returns_error (e : Disk.AccessError) (s : Index) :
    ¬ (Outcome.mk (.error e) s : Outcome α).Returns := by
  rintro ⟨a, s', h⟩
  cases h

theorem returns_andThen {o : Outcome α} {f : α → Index → Outcome β} :
    (o.andThen f).Returns ↔ ∃ a s, o = .pure a s ∧ (f a s).Returns := by
  constructor
  · rintro ⟨b, s', h⟩
    obtain ⟨a, s, ho, hf⟩ := Index.andThen_eq_pure h
    exact ⟨a, s, ho, b, s', hf⟩
  · rintro ⟨a, s, rfl, hf⟩
    exact hf

@[simp]
theorem returns_map {o : Outcome α} {f : α → β} : (o.map f).Returns ↔ o.Returns := by
  rw [Outcome.map, returns_andThen]
  constructor
  · rintro ⟨a, s, ho, -⟩
    exact ⟨a, s, ho⟩
  · rintro ⟨a, s, ho⟩
    exact ⟨a, s, ho, returns_pure ..⟩

end Outcome

namespace Index

/-- No document is open for a file, and its path has a NUL in it. -/
def Barred (s : Index) (uri : String) : Prop :=
  s.isOpen uri = false ∧ '\x00' ∈ (Uri.toPath (Uri.normalize uri)).toList

instance (s : Index) (uri : String) : Decidable (s.Barred uri) :=
  inferInstanceAs (Decidable (_ ∧ _))

/-- A file whose record is clean, or can be made so. -/
def Refreshable (s : Index) (uri : String) : Prop := s.Clean uri ∨ ¬ s.Barred uri

section
variable {d : Disk} {s s' : Index} {uri : String}

theorem text_eq_embeddedNul_iff_barred :
    s.text d uri = .error .embeddedNul ↔ s.Barred uri := by
  unfold Barred
  cases hopen : s.buffers.get? (Uri.normalize uri) with
  | none => rw [isOpen_eq_false_iff, text_eq_embeddedNul_iff hopen, hopen, eq_self, true_and]
  | some text => rw [isOpen_eq_false_iff, text_of_open hopen, hopen]; simp

theorem returns_settle_iff (before after : Index) :
    (settle d (Uri.normalize uri) before after).Returns ↔ ¬ before.Barred uri := by
  rw [← text_eq_embeddedNul_iff_barred (d := d), ← text_normalize, ← ne_eq,
    ← failure?_eq_none_iff]
  unfold settle
  split
  · next e he => simp [he, Outcome.not_returns_error]
  · next he => simp [he]

/-! ## One file -/

/-- Where a file has a record there is nothing to read. -/
theorem returns_ensureIndexed_iff :
    (s.ensureIndexed d uri).Returns ↔ s.get? uri ≠ none ∨ ¬ s.Barred uri := by
  cases h : s.files.get? (Uri.normalize uri) with
  | none =>
    rw [ensureIndexed_of_unknown h, returns_settle_iff]
    simp [get?, h]
  | some r =>
    rw [ensureIndexed_of_known h]
    simp [get?, h]

theorem returns_markDirty_iff :
    (s.markDirty d uri).Returns ↔ s.get? uri ≠ none ∨ ¬ s.Barred uri := by
  rw [← returns_ensureIndexed_iff (d := d), markDirty, Outcome.returns_andThen]
  simp [Outcome.Returns]

theorem returns_refresh_iff : (s.refresh d uri).Returns ↔ s.Refreshable uri := by
  cases h : s.files.get? (Uri.normalize uri) with
  | none =>
    rw [refresh_of_unknown h, returns_ensureIndexed_iff]
    simp [Refreshable, Clean, get?, h]
  | some r =>
    cases hd : r.dirty with
    | true =>
      rw [refresh_of_dirty h hd, reindex, returns_settle_iff]
      simp [Refreshable, Clean, get?, h, hd]
    | false =>
      rw [refresh_of_clean h hd]
      simp [Refreshable, Clean, get?, h, hd]

theorem returns_outline_iff : (s.outline d uri).Returns ↔ s.Refreshable uri := by
  rw [outline, Outcome.returns_map, returns_refresh_iff]

/-! ## Definition queries -/

theorem SameSetting.barred_iff (h : SameSetting s s') : s'.Barred uri ↔ s.Barred uri := by
  simp only [Barred, isOpen, h.buffers]

theorem refreshable_congr {u : String} (h : Uri.normalize u = Uri.normalize uri) :
    s.Refreshable u ↔ s.Refreshable uri := by
  simp only [Refreshable, Clean, Barred, isOpen, get?, h]

/-- Whether files can be refreshed stays as it was when one of them is. -/
theorem Refreshed.refreshable_iff {r : FileRecord} {u : String} (h : Refreshed uri s r s')
    (huri : s.Refreshable uri) (hknown : s.get? u ≠ none) :
    s'.Refreshable u ↔ s.Refreshable u := by
  by_cases hu : Uri.normalize u = Uri.normalize uri
  · have hclean : s'.Clean uri := ⟨r, h.own, h.clean⟩
    exact iff_of_true ((refreshable_congr hu).2 (.inl hclean)) ((refreshable_congr hu).2 huri)
  · obtain ⟨r', hr'⟩ := Option.ne_none_iff_exists'.1 hknown
    have hkept : s'.get? u = some r' := h.others _ r' hu hr'
    simp only [Refreshable, Clean, h.same.barred_iff, hkept, hr']

theorem returns_globalDefinitions_iff {o : Occurrence} {uris : List String}
    (hknown : ∀ u ∈ uris, s.get? u ≠ none) :
    (globalDefinitions d o uris s).Returns ↔ ∀ u ∈ uris, s.Refreshable u := by
  induction uris generalizing s with
  | nil => simp [globalDefinitions]
  | cons uri uris ih =>
    obtain ⟨r₀, hr₀⟩ := Option.ne_none_iff_exists'.1 (hknown uri (by simp))
    rw [globalDefinitions, hr₀, List.forall_mem_cons]
    dsimp only
    rw [Outcome.returns_andThen, ← returns_refresh_iff (d := d)]
    -- what the first refresh leaves is as good as what it found
    have hrest {r : FileRecord} {s₁ : Index} (hr : s.refresh d uri = .pure r s₁) :
        (globalDefinitions d o uris s₁).Returns ↔ ∀ u ∈ uris, s.Refreshable u := by
      have hmoves := moves_refresh d s uri
      rw [hr, index_pure] at hmoves
      have huri : s.Refreshable uri := returns_refresh_iff.1 ⟨r, s₁, hr⟩
      rw [ih fun u hu => hmoves.knows (hknown u (by simp [hu]))]
      refine forall₂_congr fun u hu => ?_
      exact (refreshed hr).refreshable_iff huri (hknown u (by simp [hu]))
    constructor
    · rintro ⟨r, s₁, hr, hreturns⟩
      exact ⟨⟨r, s₁, hr⟩, (hrest hr).1 (Outcome.returns_map.1 hreturns)⟩
    · rintro ⟨⟨r, s₁, hr⟩, huris⟩
      exact ⟨r, s₁, hr, Outcome.returns_map.2 ((hrest hr).2 huris)⟩

theorem mem_consulted (s : Index) (uri : String) (line character : Int) :
    uri ∈ s.consulted uri line character := by
  unfold consulted
  split
  · simp
  · split <;> simp

/-- A query has to refresh its own file, and the global files if its own has no match. -/
theorem returns_definition_iff (hglobals : s.GlobalsKnown) (line character : Int) :
    (s.definition d uri line character).Returns ↔
      ∀ u ∈ (s.refresh d uri).index.consulted uri line character, s.Refreshable u := by
  by_cases huri : s.Refreshable uri
  · obtain ⟨r, s₁, hr⟩ := returns_refresh_iff.2 huri
    have hrefreshed := refreshed hr
    have hmoves := moves_refresh d s uri
    rw [hr, index_pure] at hmoves
    have hown := hrefreshed.own
    rw [definition, hr, pure_andThen, index_pure]
    cases ho : r.occurrenceAt? line character with
    | none => simp [consulted, occurrence?_eq hown, ho, huri]
    | some o =>
      simp only [consulted, occurrence?_eq hown, ho, declared_eq hown]
      cases hfound : r.definitions s₁.config.resolveFunctions o with
      | cons l ls => simp [huri]
      | nil =>
        have hknown : ∀ g ∈ s₁.globals, s.get? g ≠ none :=
          fun g hg => hglobals g (hrefreshed.same.globals ▸ hg)
        simp only [if_true, List.forall_mem_cons, huri, true_and]
        rw [returns_globalDefinitions_iff fun g hg => hmoves.knows (hknown g hg)]
        exact forall₂_congr fun g hg => hrefreshed.refreshable_iff huri (hknown g hg)
  · refine iff_of_false (fun hreturns => huri ?_) fun h => huri (h uri (mem_consulted ..))
    obtain ⟨r, s₁, hr, -⟩ := Outcome.returns_andThen.1 hreturns
    exact returns_refresh_iff.1 ⟨r, s₁, hr⟩

end

end Index

namespace Service

open Index

section
variable {d : Disk} {s : Index}

/-! ## Answers -/

theorem status_handle {q : Request} {route : Route}
    (hroute : Route.find? (Route.pathOf q.path) = some route) (hverb : q.verb ∈ route.methods) :
    (handle d s q).1.status = (answer d s q.verb q.body route).1.status := by
  have hdispatch : dispatch d s q = answer d s q.verb q.body route := by
    rw [dispatch, hroute]
    exact if_pos hverb
  rw [status_handle_eq_dispatch, hdispatch]

theorem status_respond (o : Outcome Json) :
    ((respond o).1.status = 200 ↔ o.Returns) ∧ ((respond o).1.status = 500 ↔ ¬ o.Returns) := by
  obtain ⟨result, s⟩ := o
  cases result with
  | ok body => simp [respond, Response.ok, Outcome.Returns, Outcome.pure]
  | error e => simp [respond, Response.failed, Outcome.not_returns_error]

theorem status_handle_outline {q : Request} {uri : String}
    (hroute : Route.find? (Route.pathOf q.path) = some .outline) (hverb : q.verb = "POST")
    (hbody : q.body.decode UriRequest.ofFields = .ok ⟨uri⟩) :
    ((handle d s q).1.status = 200 ↔ (s.outline d uri).Returns) ∧
      ((handle d s q).1.status = 500 ↔ ¬ (s.outline d uri).Returns) := by
  rw [status_handle hroute (by simp [hverb, Route.methods]), answer, withBody, hbody]
  simpa only [Outcome.returns_map] using status_respond
    ((s.outline d uri).map fun symbols => .array (symbols.map OutlineSymbol.toJson))

theorem status_handle_definition {q : Request} {r : DefinitionRequest}
    (hroute : Route.find? (Route.pathOf q.path) = some .definition) (hverb : q.verb = "POST")
    (hbody : q.body.decode DefinitionRequest.ofFields = .ok r) :
    ((handle d s q).1.status = 200 ↔ (s.definition d r.uri r.line r.character).Returns) ∧
      ((handle d s q).1.status = 500 ↔ ¬ (s.definition d r.uri r.line r.character).Returns) := by
  rw [status_handle hroute (by simp [hverb, Route.methods]), answer, withBody, hbody]
  simpa only [Outcome.returns_map] using status_respond
    ((s.definition d r.uri r.line r.character).map fun ls => .array (ls.map Location.toJson))

end

/-- **When a failure reaches the caller.** After any run, on any disk, an operation returns
unless it has to read a file that is barred: one without a record if it is to be indexed or
marked, one without a clean record if it is to be refreshed or searched. A query with a valid
body is answered 200 if it returns and 500 if not. The texts of open documents are taken to
have no half of a surrogate pair in them: such a text would be a second failure that reaches
the caller. -/
theorem failure_reaches_caller_iff {s : Index} (hs : Reachable s) (d : Disk) (uri : String) :
    ((s.ensureIndexed d uri).Returns ↔ s.get? uri ≠ none ∨ ¬ s.Barred uri) ∧
    ((s.markDirty d uri).Returns ↔ s.get? uri ≠ none ∨ ¬ s.Barred uri) ∧
    ((s.refresh d uri).Returns ↔ s.Clean uri ∨ ¬ s.Barred uri) ∧
    ((s.outline d uri).Returns ↔ s.Clean uri ∨ ¬ s.Barred uri) ∧
    (∀ line character, (s.definition d uri line character).Returns ↔
      ∀ u ∈ (s.refresh d uri).index.consulted uri line character, s.Clean u ∨ ¬ s.Barred u) ∧
    (∀ q, Route.find? (Route.pathOf q.path) = some .outline → q.verb = "POST" →
      q.body.decode UriRequest.ofFields = .ok ⟨uri⟩ →
      ((handle d s q).1.status = 200 ↔ (s.outline d uri).Returns) ∧
      ((handle d s q).1.status = 500 ↔ ¬ (s.outline d uri).Returns)) ∧
    (∀ q, ∀ line character : Nat, Route.find? (Route.pathOf q.path) = some .definition →
      q.verb = "POST" →
      q.body.decode DefinitionRequest.ofFields = .ok ⟨uri, line, character⟩ →
      ((handle d s q).1.status = 200 ↔ (s.definition d uri line character).Returns) ∧
      ((handle d s q).1.status = 500 ↔ ¬ (s.definition d uri line character).Returns)) :=
  ⟨returns_ensureIndexed_iff, returns_markDirty_iff, returns_refresh_iff, returns_outline_iff,
    returns_definition_iff hs.globalsKnown, fun _ => status_handle_outline,
    fun _ _ _ => status_handle_definition⟩

/-- A query for the outline of a file whose name has a NUL in it. -/
def nulRequest : Request :=
  ⟨"POST", "/outline", .value (.object [("uri", .string "file:///a%00b.lua")])⟩

theorem failure_reaches_caller_iff_empty :
    (¬ ((Index.create "/" "/" {}).outline (.empty "/") "file:///a%00b.lua").Returns ∧
      (handle (.empty "/") (.create "/" "/" {}) nulRequest).1.status = 500) ∧
    ((Index.create "/" "/" {}).outline (.empty "/") "file:///a.lua").Returns := by
  have hreachable : Reachable (.create "/" "/" {}) := .create "/" "/" {}
  have hclean : ¬ (Index.create "/" "/" {}).Clean "file:///a%00b.lua" := by
    rintro ⟨r, hr, -⟩
    cases hr
  have hreturns :
      ¬ ((Index.create "/" "/" {}).outline (.empty "/") "file:///a%00b.lua").Returns := by
    rw [(failure_reaches_caller_iff hreachable _ _).2.2.2.1]
    exact not_or.2 ⟨hclean, not_not.2 (by decide +kernel)⟩
  refine ⟨⟨hreturns, ?_⟩, ?_⟩
  · exact ((failure_reaches_caller_iff hreachable _ "file:///a%00b.lua").2.2.2.2.2.1 nulRequest
      (by decide +kernel) (by decide +kernel) (by rfl)).2.2 hreturns
  · rw [(failure_reaches_caller_iff hreachable _ _).2.2.2.1]
    exact .inr (by decide +kernel)

/-- A request with a valid body is answered 500, for a file that cannot be looked up. -/
theorem outline_of_nul_fails :
    nulRequest.body.decode UriRequest.ofFields = .ok ⟨"file:///a%00b.lua"⟩ ∧
      (handle (.empty "/") (.create "/" "/" {}) nulRequest).1.status = 500 := by
  refine ⟨by rfl, by decide +kernel⟩

end Service

end LuaSymbols
