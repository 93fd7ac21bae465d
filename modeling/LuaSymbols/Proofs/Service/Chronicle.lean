import Mathlib
import LuaSymbols.Proofs.Service.Save

/-!
# Where the bindings of a record come from

A record is filled in place, event by event, and other files are indexed in between. Still
its bindings are always those of one text. A move indexes the files that it turns clean
and leaves the bindings of all others (`Move.fate`); a file that it indexes gets the
bindings of its text as a whole, none if the walk goes too deep, and keeps its record
where there is nothing to walk.

A `Chronicle` of a run notes for every key the text that was last indexed with success.
The bindings of a record are those of that text, or there are none (`records_untorn`).
-/

namespace LuaSymbols

namespace Lua

theorem parse?_of_load {v : LuaVersion} {text : String} {root : Node}
    (h : load v text = .ok root) : parse? text = some root := by
  unfold load at h
  split at h
  · cases h
  · next n hparse =>
    split at h
    · cases h
    · cases h
      exact hparse

end Lua

namespace Index

/-- There is a record under a key, and it is clean. -/
def isClean (s : Index) (key : String) : Bool := (s.files.get? key).any (!·.dirty)

/-- A move indexes the files that it turns clean. -/
def indexes (s s' : Index) (key : String) : Bool := !s.isClean key && s'.isClean key

/-- Nothing can be walked: the file cannot be read, or it is missing, or its text is
refused. -/
inductive Unwalkable (s : Index) (d : Disk) (uri : String) : Prop where
  | unreadable {e : Disk.AccessError} : s.text d uri = .error e → Unwalkable s d uri
  | missing : s.text d uri = .ok none → Unwalkable s d uri
  | refused {text : String} {e : Lua.Refusal} : s.text d uri = .ok (some text) →
      Lua.load s.config.version text = .error e → Unwalkable s d uri

section
variable {d : Disk} {s s' : Index} {key uri k : String} {r r' : FileRecord}

theorem isClean_of_get? (h : s.files.get? key = some r) : s.isClean key = !r.dirty := by
  simp [isClean, h]

theorem isClean_of_unknown (h : s.files.get? key = none) : s.isClean key = false := by
  simp [isClean, h]

theorem Unwalkable.normalize (h : s.Unwalkable d uri) : s.Unwalkable d (Uri.normalize uri) := by
  cases h with
  | unreadable h => exact .unreadable ((text_normalize s d uri).trans h)
  | missing h => exact .missing ((text_normalize s d uri).trans h)
  | refused h he => exact .refused ((text_normalize s d uri).trans h) he

theorem unwalkable_iff : s.Unwalkable d key ↔ ∀ t, s.trace? d key ≠ .ok (some t) := by
  constructor
  · intro h t ht
    obtain ⟨text, root, htext, hload, -⟩ := exists_of_trace? ht
    cases h with
    | unreadable he => rw [he] at htext; cases htext
    | missing he => rw [he] at htext; cases htext
    | refused he hrefused =>
      rw [he] at htext
      cases htext
      rw [hrefused] at hload
      cases hload
  · intro h
    rcases htext : s.text d key with e | (_ | text)
    · exact .unreadable htext
    · exact .missing htext
    · cases hload : Lua.load s.config.version text with
      | error e => exact .refused htext hload
      | ok root =>
        refine absurd ?_ (h (Walk.trace ⟨key, .ofText text, s.config.includeKeywords⟩ root))
        rw [trace?_of_text htext, traceOf?_of_load hload]

theorem Unwalkable.congr (hs : SameSetting s s') (h : s.Unwalkable d key) :
    s'.Unwalkable d key := by
  rw [unwalkable_iff] at h ⊢
  simpa only [hs.trace?] using h

/-! ## Nothing to walk -/

theorem imports_of_unwalkable (h : s.Unwalkable d key) : s.imports d key = [] := by
  unfold imports
  split
  · next t ht => exact absurd ht (unwalkable_iff.1 h t)
  · rfl

theorem firstRecord_of_unwalkable (h : s.Unwalkable d key) :
    s.firstRecord d key = { uri := key } := by
  have hbindings : s.ownBindings d key = {} := by
    unfold ownBindings
    split
    · next t ht => exact absurd ht (unwalkable_iff.1 h t)
    · rfl
  rw [← firstRecord_eq, imports_of_unwalkable h, hbindings]
  rfl

theorem rebound_of_unwalkable (h : s.Unwalkable d key) (r : FileRecord) :
    s.rebound d key r = { r with dirty := false } := by
  unfold rebound
  split
  · next t ht => exact absurd ht (unwalkable_iff.1 h t)
  · rfl

/-! ## What one move does to bindings -/

/-- The record that indexing leaves where there was `r`: the bindings of the walk, or where
there is nothing to walk, all as it was. -/
structure Indexed (s : Index) (d : Disk) (key : String) (r r' : FileRecord) : Prop where
  walked : ∀ t, s.trace? d key = .ok (some t) → r'.toBindings = t.settled
  spared : s.Unwalkable d key → r' = { r with dirty := false }

theorem indexed_firstRecord (s : Index) (d : Disk) (key : String) :
    Indexed s d key { uri := key } (s.firstRecord d key) := by
  refine ⟨fun t ht => ?_, fun h => firstRecord_of_unwalkable h⟩
  rw [firstRecord, ownBindings, ht]

theorem Indexed.congr (hs : SameSetting s s') (h : Indexed s d key r r') :
    Indexed s' d key r r' := by
  exact ⟨fun t ht => h.walked t (hs.trace? d key ▸ ht), fun hu => h.spared (hu.congr hs.symm)⟩

/-- The record that is there, else an empty one. -/
def recordOr (s : Index) (key : String) : FileRecord :=
  (s.files.get? key).getD { uri := key }

theorem recordOr_of_unknown (h : s.files.get? key = none) : s.recordOr key = { uri := key } := by
  simp [recordOr, h]

theorem recordOr_of_get? (h : s.files.get? key = some r) : s.recordOr key = r := by
  simp [recordOr, h]

/-- What a move does to the record of one key: it indexes the file, or it leaves the
bindings of a record that was there. -/
inductive Fate (d : Disk) (s s' : Index) (key : String) (r' : FileRecord) : Prop where
  | indexed : s.indexes s' key = true → Indexed s' d key (s.recordOr key) r' → Fate d s s' key r'
  | passed {r : FileRecord} : s.indexes s' key = false → s.files.get? key = some r →
      r'.toBindings = r.toBindings → Fate d s s' key r'

/-- A record that has no other bindings and is not cleaned. -/
theorem Fate.of_kept (hr : s.files.get? key = some r) (hr' : s'.files.get? key = some r')
    (hb : r'.toBindings = r.toBindings) (hd : r'.dirty = true ∨ r'.dirty = r.dirty) :
    Fate d s s' key r' := by
  refine .passed ?_ hr hb
  rw [indexes, isClean_of_get? hr, isClean_of_get? hr']
  rcases hd with hd | hd
  · simp [hd]
  · cases hr : r.dirty <;> simp [hd, hr]

theorem Fate.of_new (hs : SameSetting s s') (hr : s.files.get? key = none)
    (hr' : s'.files.get? key = some (s.firstRecord d key)) :
    Fate d s s' key (s.firstRecord d key) := by
  refine .indexed ?_ ?_
  · simp [indexes, isClean_of_unknown hr, isClean_of_get? hr', firstRecord]
  · rw [recordOr_of_unknown hr]
    exact (s.indexed_firstRecord d key).congr hs

/-- Visiting a file indexes the fresh keys. -/
theorem Visited.fate (h : Visited d key s s') (hr' : s'.files.get? k = some r') :
    Fate d s s' k r' := by
  rcases h.of_record hr' with hold | ⟨hnone, -, rfl⟩
  · exact .of_kept hold hr' rfl (.inr rfl)
  · exact .of_new h.same hnone hr'

/-- Indexing a file again indexes it and the keys that are fresh from its imports. -/
theorem fate_reindex (hr : s.files.get? key = some r) (hd : r.dirty = true)
    (hr' : (s.reindex d key).index.files.get? k = some r') :
    Fate d s (s.reindex d key).index k r' := by
  have hsame := sameSetting_reindex (d := d) hr
  rcases record_of_reindex hr hr' with ⟨rfl, rfl⟩ | ⟨-, hold⟩ | ⟨hnone, -, rfl⟩
  · refine .indexed ?_ (.congr hsame ⟨fun t ht => ?_, fun hu => ?_⟩)
    · simp [indexes, isClean_of_get? hr, isClean_of_get? hr', hd]
    · rw [FileRecord.toBindings_foldl_addImport, rebound, ht]
    · rw [imports_of_unwalkable hu, List.foldl_nil, rebound_of_unwalkable hu, recordOr_of_get? hr]
  · exact .of_kept hold hr' rfl (.inr rfl)
  · exact .of_new hsame hnone hr'

/-- Marking a record keeps its bindings. -/
theorem fate_mark (hr' : (s.modify key ({ · with dirty := true })).files.get? k = some r')
    (hs : s'.files = (s.modify key ({ · with dirty := true })).files) : Fate d s s' k r' := by
  have hget := hr'
  rw [get?_modify] at hr'
  rw [← hs] at hget
  split at hr'
  · obtain ⟨r, hr, rfl⟩ := Option.map_eq_some_iff.1 hr'
    exact .of_kept hr hget rfl (.inl rfl)
  · exact .of_kept hr' hget rfl (.inr rfl)

theorem Move.fate (h : Move d s s') (hr' : s'.files.get? k = some r') : Fate d s s' k r' := by
  cases h with
  | visit _ => exact (visited_visit d s _).fate hr'
  | reindex hr hd => exact fate_reindex hr hd hr'
  | mark uri => exact fate_mark hr' rfl
  | @link uri path _ =>
    have hget := hr'
    rw [get?_addImport] at hr'
    split at hr'
    · obtain ⟨r, hr, rfl⟩ := Option.map_eq_some_iff.1 hr'
      exact .of_kept hr hget (by simp) (.inr (by simp))
    · exact .of_kept hr' hget rfl (.inr rfl)
  | publish _ =>
    have hget := hr'
    rw [files_addGlobal] at hr'
    exact .of_kept hr' hget rfl (.inr rfl)
  | configure config =>
    have hget := hr'
    rw [Index.configure, Table.get?_mapValues] at hr'
    obtain ⟨r, hr, rfl⟩ := Option.map_eq_some_iff.1 hr'
    exact .of_kept hr hget rfl (.inl rfl)
  | store text _ => exact fate_mark hr' rfl
  | @storeNew uri text _ =>
    cases (visited_visit d (s.openDocument uri text) (Uri.normalize uri)).fate hr' with
    | indexed h hi => exact .indexed h hi
    | passed h hr hb => exact .passed h hr hb
  | close uri => exact .of_kept hr' hr' rfl (.inr rfl)

theorem Move.indexed (h : Move d s s') (hindexes : s.indexes s' k = true) :
    ∃ r', s'.files.get? k = some r' ∧ Indexed s' d k (s.recordOr k) r' := by
  obtain ⟨r', hr', -⟩ : ∃ r', s'.files.get? k = some r' ∧ (!r'.dirty) = true := by
    simp only [indexes, Bool.and_eq_true] at hindexes
    exact Option.any_eq_true _ _ |>.1 hindexes.2
  refine ⟨r', hr', ?_⟩
  cases h.fate hr' with
  | indexed _ hindexed => exact hindexed
  | passed hpassed => exact absurd hindexes (by simp [hpassed])

/-! ## Attempts that fail -/

/-- All that becomes of the records when a file cannot be walked: one record, which is an
empty one if there was none, and its flag. -/
structure Spared (key : String) (s s' : Index) : Prop where
  others : ∀ k, k ≠ key → s'.files.get? k = s.files.get? k
  own : ∀ r', s'.files.get? key = some r' → ∃ dirty, r' = { s.recordOr key with dirty := dirty }
  knows : s.files.get? key ≠ none → s'.files.get? key ≠ none

namespace Spared

theorem of_files_eq (h : s'.files = s.files) : Spared key s s' := by
  refine ⟨fun k _ => by rw [h], fun r' hr' => ?_, fun hk => by rwa [h]⟩
  rw [h] at hr'
  exact ⟨r'.dirty, by rw [recordOr_of_get? hr']⟩

theorem trans {s₂ : Index} (h : Spared key s s') (h₂ : Spared key s' s₂) : Spared key s s₂ := by
  refine ⟨fun k hk => (h₂.others k hk).trans (h.others k hk), fun r hr => ?_,
    fun hk => h₂.knows (h.knows hk)⟩
  obtain ⟨dirty, rfl⟩ := h₂.own r hr
  refine ⟨dirty, ?_⟩
  cases hr' : s'.files.get? key with
  | some r' =>
    obtain ⟨dirty', rfl⟩ := h.own r' hr'
    rw [recordOr_of_get? hr']
  | none =>
    have hnone : s.files.get? key = none := by
      by_contra hsome
      exact h.knows hsome hr'
    rw [recordOr_of_unknown hr', recordOr_of_unknown hnone]

theorem andThen {α β : Type} {o : Outcome α} {f : α → Index → Outcome β}
    (h : Spared key s o.index)
    (hf : ∀ a, o = .pure a o.index → Spared key o.index (f a o.index).index) :
    Spared key s (o.andThen f).index := by
  obtain ⟨result, index⟩ := o
  cases result with
  | error e => exact h
  | ok a => exact h.trans (hf a rfl)

theorem mark (s : Index) (key : String) (dirty : Bool) :
    Spared key s (s.modify key ({ · with dirty := dirty })) := by
  refine ⟨fun k hk => by rw [get?_modify, if_neg hk], fun r' hr' => ?_, by simp⟩
  rw [get?_modify, if_pos rfl] at hr'
  obtain ⟨r, hr, rfl⟩ := Option.map_eq_some_iff.1 hr'
  exact ⟨dirty, by rw [recordOr_of_get? hr]⟩

end Spared

/-- A file that cannot be walked is registered, however deep in the imports of others. -/
theorem visit_of_unwalkable (n : Nat) (h : s.Unwalkable d key) (hnone : s.files.get? key = none) :
    visit d (n + 1) s key = s.register key := by
  have hregister := h.congr (.register s key)
  rw [visit_of_unknown n hnone, imports_of_unwalkable h, List.foldl_nil, rebind]
  split
  · next t ht => exact absurd ht (unwalkable_iff.1 hregister t)
  · rfl

theorem spared_ensureIndexed (h : s.Unwalkable d uri) :
    Spared (Uri.normalize uri) s (s.ensureIndexed d uri).index := by
  cases hr : s.files.get? (Uri.normalize uri) with
  | some r =>
    rw [ensureIndexed_of_known hr]
    exact .of_files_eq rfl
  | none =>
    rw [ensureIndexed_of_unknown hr, index_settle, chainBound, visit_of_unwalkable _ h.normalize hr]
    refine ⟨fun k hk => by rw [get?_register, if_neg hk], fun r' hr' => ⟨false, ?_⟩,
      fun hk => absurd hr hk⟩
    rw [get?_register, if_pos rfl] at hr'
    rw [recordOr_of_unknown hr]
    exact (Option.some.inj hr').symm

theorem spared_markDirty (h : s.Unwalkable d uri) :
    Spared (Uri.normalize uri) s (s.markDirty d uri).index :=
  (spared_ensureIndexed h).andThen fun _ _ => .mark _ _ true

theorem spared_reindex (h : s.Unwalkable d key) (hr : s.files.get? key = some r) :
    Spared key s (s.reindex d key).index := by
  refine ⟨fun k hne => ?_, fun r' hr' => ⟨false, ?_⟩, knows_reindex hr⟩
  · cases hk : s.files.get? k with
    | some r' => exact get?_reindex_of_ne hr hne hk
    | none =>
      by_contra hsome
      obtain ⟨r', hr'⟩ := Option.ne_none_iff_exists'.1 hsome
      rcases record_of_reindex hr hr' with ⟨rfl, -⟩ | ⟨-, hold⟩ | ⟨-, ⟨dep, hdep, -⟩, -⟩
      · exact hne rfl
      · rw [hk] at hold
        cases hold
      · rw [imports_of_unwalkable h] at hdep
        cases hdep
  · rw [get?_reindex hr, imports_of_unwalkable h, List.foldl_nil, rebound_of_unwalkable h] at hr'
    rw [recordOr_of_get? hr]
    exact (Option.some.inj hr').symm

theorem spared_refresh (h : s.Unwalkable d uri) :
    Spared (Uri.normalize uri) s (s.refresh d uri).index := by
  cases hr : s.files.get? (Uri.normalize uri) with
  | none =>
    rw [refresh_of_unknown hr]
    exact spared_ensureIndexed h
  | some r =>
    cases hd : r.dirty with
    | true =>
      rw [refresh_of_dirty hr hd]
      exact spared_reindex h.normalize hr
    | false =>
      rw [refresh_of_clean hr hd]
      exact .of_files_eq rfl

theorem spared_outline (h : s.Unwalkable d uri) :
    Spared (Uri.normalize uri) s (s.outline d uri).index :=
  (spared_refresh h).andThen fun _ _ => .of_files_eq rfl

/-! ## Chronicles -/

/-- The text of a file, if its walk comes to an end. -/
def walkedText? (s : Index) (d : Disk) (key : String) : Option String :=
  match s.text d key with
  | .ok (some text) => if (s.traceOf? key text).any Trace.isComplete then some text else none
  | _ => none

/-- What is noted after a move: the text of a file that was indexed with success, and of
every other file what was noted before. -/
def noted (d : Disk) (s s' : Index) (last : String → Option String) (key : String) :
    Option String :=
  if s.indexes s' key then s'.walkedText? d key <|> last key else last key

/-- A run, with the text that was last indexed with success under each key. -/
inductive Chronicle : Index → (String → Option String) → Prop where
  | create (cwd root : String) (config : Config) :
      Chronicle (.create cwd root config) fun _ => none
  | move {s s' : Index} {last : String → Option String} (d : Disk) : Chronicle s last →
      Move d s s' → Chronicle s' (noted d s s' last)

/-- The bindings of a file are none at all, or all those of one text, whatever the
keywords. -/
def Untorn (key : String) (last : Option String) (b : Bindings) : Prop :=
  b = {} ∨ ∃ text root, last = some text ∧ Lua.parse? text = some root ∧ ∀ keywords,
    (Walk.trace ⟨key, .ofText text, keywords⟩ root).isComplete = true ∧
      b = (Walk.trace ⟨key, .ofText text, keywords⟩ root).bindings

theorem walkedText?_of_unwalkable (h : s.Unwalkable d key) : s.walkedText? d key = none := by
  unfold walkedText?
  split
  · next text htext =>
    cases h with
    | unreadable he => rw [he] at htext; cases htext
    | missing he => rw [he] at htext; cases htext
    | refused he hrefused =>
      rw [he] at htext
      cases htext
      simp [traceOf?, hrefused]
  · rfl

/-- A file that is walked gets the bindings of its text, or none if that goes too deep. -/
theorem untorn_of_walked {t : Trace} (ht : s.trace? d key = .ok (some t))
    (last : Option String) : Untorn key (s.walkedText? d key <|> last) t.settled := by
  obtain ⟨text, root, htext, hload, rfl⟩ := exists_of_trace? ht
  cases hc : (Walk.trace ⟨key, .ofText text, s.config.includeKeywords⟩ root).isComplete with
  | false => exact .inl (by simp [Trace.settled, hc])
  | true =>
    have hwalked : s.walkedText? d key = some text := by
      simp [walkedText?, htext, traceOf?_of_load hload, hc]
    refine .inr ⟨text, root, by simp [hwalked], Lua.parse?_of_load hload, fun keywords => ?_⟩
    have hbindings := Walk.bindings_trace_withKeywords
      ⟨key, .ofText text, s.config.includeKeywords⟩ keywords root
    have hcomplete := Walk.isComplete_trace_withKeywords
      ⟨key, .ofText text, s.config.includeKeywords⟩ keywords root
    refine ⟨hcomplete.trans hc, ?_⟩
    rw [Trace.settled, if_pos hc]
    exact hbindings.symm

theorem Chronicle.untorn {last : String → Option String} (h : Chronicle s last)
    (hr : s.files.get? key = some r) : Untorn key (last key) r.toBindings := by
  induction h generalizing r with
  | create => cases hr
  | @move s s' last d _ hm ih =>
    cases hm.fate hr with
    | passed hpassed hr₀ hb =>
      rw [noted, if_neg (by simp [hpassed]), hb]
      exact ih hr₀
    | indexed hindexes hindexed =>
      rw [noted, if_pos hindexes]
      by_cases hu : s'.Unwalkable d key
      · rw [walkedText?_of_unwalkable hu, hindexed.spared hu]
        cases hr₀ : s.files.get? key with
        | none => exact .inl (by rw [recordOr_of_unknown hr₀])
        | some r₀ =>
          have hold := ih hr₀
          rw [recordOr_of_get? hr₀]
          exact hold
      · rw [unwalkable_iff] at hu
        push Not at hu
        obtain ⟨t, ht⟩ := hu
        rw [hindexed.walked t ht]
        exact untorn_of_walked ht (last key)

theorem Chronicle.moves {last : String → Option String} (h : Chronicle s last)
    (hm : Moves d s s') : ∃ last', Chronicle s' last' := by
  induction hm with
  | refl => exact ⟨last, h⟩
  | tail _ hm ih =>
    obtain ⟨last', h'⟩ := ih
    exact ⟨_, h'.move d hm⟩

end

end Index

namespace Service

open Index

/-! ## Actions that find nothing to walk -/

/-- An action on one file that finds nothing to walk: a query of a file that cannot be
walked, or a request with a text that is refused. -/
inductive Futile (d : Disk) (s : Index) (uri : String) : Action → Prop where
  | ensureIndexed : s.Unwalkable d uri → Futile d s uri (.ensureIndexed uri)
  | markDirty : s.Unwalkable d uri → Futile d s uri (.markDirty uri)
  | refresh : s.Unwalkable d uri → Futile d s uri (.refresh uri)
  | outline : s.Unwalkable d uri → Futile d s uri (.outline uri)
  | dependency {path : String} {isGlobal : Bool} : uri = Uri.ofPath d.cwd path →
      s.Unwalkable d uri → Futile d s uri (.indexDependency none path isGlobal)
  | queried {q : Request} : Route.find? (Route.pathOf q.path) = some .outline →
      q.body.decode UriRequest.ofFields = .ok ⟨uri⟩ → s.Unwalkable d uri →
      Futile d s uri (.request q)
  | opened {q : Request} {text : String} {e : Lua.Refusal} :
      Route.find? (Route.pathOf q.path) = some .openDocument →
      q.body.decode TextRequest.ofFields = .ok ⟨uri, text⟩ →
      Lua.load s.config.version text = .error e → Futile d s uri (.request q)
  | changed {q : Request} {text : String} {e : Lua.Refusal} :
      Route.find? (Route.pathOf q.path) = some .changeDocument →
      q.body.decode TextRequest.ofFields = .ok ⟨uri, text⟩ →
      Lua.load s.config.version text = .error e → Futile d s uri (.request q)
  | saved {q : Request} {text : String} {e : Lua.Refusal} :
      Route.find? (Route.pathOf q.path) = some .saveDocument →
      q.body.decode SaveRequest.ofFields = .ok ⟨uri, some text⟩ →
      Lua.load s.config.version text = .error e → Futile d s uri (.request q)

section
variable {d : Disk} {s : Index} {uri text : String} {e : Lua.Refusal}

theorem unwalkable_openDocument (h : Lua.load s.config.version text = .error e) :
    (s.openDocument uri text).Unwalkable d uri :=
  .refused (text_of_open ((buffers_openDocument s uri text _).trans (if_pos rfl))) h

theorem unwalkable_edited (h : Lua.load s.config.version text = .error e) :
    (s.edited uri text).Unwalkable d uri :=
  (unwalkable_openDocument h).congr (.modify _ _ _)

theorem spared_edited (s : Index) (uri text : String) :
    Spared (Uri.normalize uri) s (s.edited uri text) := by
  have hstored : Spared (Uri.normalize uri) s (s.openDocument uri text) := .of_files_eq rfl
  exact hstored.trans (.mark _ _ true)

theorem spared_openDocument (h : Lua.load s.config.version text = .error e) :
    Spared (Uri.normalize uri) s (openDocument d s ⟨uri, text⟩).index := by
  have hstored : Spared (Uri.normalize uri) s (s.openDocument uri text) := .of_files_eq rfl
  refine .andThen ?_ fun _ _ => .of_files_eq rfl
  dsimp only
  split
  · rw [ensureIndexed_normalize]
    exact hstored.trans (spared_ensureIndexed (unwalkable_openDocument h))
  · next hknown =>
    obtain ⟨r, hr⟩ : ∃ r, s.files.get? (Uri.normalize uri) = some r := by
      simpa [Index.get?, Option.isNone_iff_eq_none, Option.ne_none_iff_exists'] using hknown
    rw [markDirty_normalize, markDirty,
      ensureIndexed_of_known (s := s.openDocument uri text) hr, pure_andThen, pure_andThen,
      refresh_normalize]
    exact (spared_edited s uri text).trans (spared_refresh (unwalkable_edited h))

theorem spared_changeDocument (h : Lua.load s.config.version text = .error e) :
    Spared (Uri.normalize uri) s (changeDocument d s ⟨uri, text⟩).index := by
  have hstored : Spared (Uri.normalize uri) s (s.openDocument uri text) := .of_files_eq rfl
  refine .andThen (hstored.trans ?_) fun _ _ => .of_files_eq rfl
  rw [markDirty_normalize]
  exact spared_markDirty (unwalkable_openDocument h)

theorem spared_saveDocument (h : Lua.load s.config.version text = .error e) :
    Spared (Uri.normalize uri) s (saveDocument d s ⟨uri, some text⟩).index := by
  rw [index_saveDocument]
  split
  · exact .of_files_eq rfl
  · split
    · next htext => exact spared_refresh (.refused htext h)
    · exact (spared_edited s uri text).trans (spared_refresh (unwalkable_edited h))

/-- A request of a kind that the route does not take changes nothing. -/
theorem spared_handle {q : Request} {route : Route} {key : String}
    (hroute : Route.find? (Route.pathOf q.path) = some route)
    (h : Spared key s (answer d s q.verb q.body route).2) : Spared key s (handle d s q).2 := by
  rw [index_handle, dispatch, hroute]
  dsimp only
  split
  · exact h
  · exact .of_files_eq rfl

theorem Futile.spared {a : Action} (h : Futile d s uri a) :
    Spared (Uri.normalize uri) s (a.run d s) := by
  cases h with
  | ensureIndexed h => exact spared_ensureIndexed h
  | markDirty h => exact spared_markDirty h
  | refresh h => exact spared_refresh h
  | outline h => exact spared_outline h
  | @dependency _ isGlobal huri h =>
    subst huri
    refine (spared_ensureIndexed h).andThen fun _ _ => .of_files_eq ?_
    cases isGlobal with
    | false => rfl
    | true => exact files_addGlobal _ _
  | queried hroute hbody h =>
    refine spared_handle hroute ?_
    rw [answer, withBody, hbody, index_respond]
    exact (spared_outline h).andThen fun _ _ => .of_files_eq rfl
  | opened hroute hbody h =>
    refine spared_handle hroute ?_
    rw [answer, withBody, hbody, index_respond]
    exact spared_openDocument h
  | changed hroute hbody h =>
    refine spared_handle hroute ?_
    rw [answer, withBody, hbody, index_respond]
    exact spared_changeDocument h
  | saved hroute hbody h =>
    refine spared_handle hroute ?_
    rw [answer, withBody, hbody, index_respond]
    exact spared_saveDocument h

end

theorem Reachable.chronicle {s : Index} (h : Reachable s) : ∃ last, Chronicle s last := by
  induction h with
  | create cwd root config => exact ⟨_, .create cwd root config⟩
  | step d a _ ih =>
    obtain ⟨last, h⟩ := ih
    exact h.moves (moves_run d _ a)

end Service

end LuaSymbols
