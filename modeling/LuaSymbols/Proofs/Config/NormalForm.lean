import Mathlib
import LuaSymbols.Proofs.Path.NormalForm
import LuaSymbols.Proofs.Service.PathKeys
import LuaSymbols.Service

/-!
# The normal form of a configuration

The entries of a configuration are cleaned twice on the way from the settings: where a setting
is split, and where the snapshot is checked. An entry that was cleaned is a fixed point of both
(`IsEntry`), so a snapshot is read back from its JSON form as it is, and settings that join its
entries give it again (`config_round_trips`). The default keywords are entries like all others.
-/

namespace LuaSymbols

/-! ## Stripped texts -/

theorem trimChars_prefix_dropWhile (p : Char → Bool) (cs : List Char) :
    trimChars p cs <+: cs.dropWhile p :=
  List.rdropWhile_prefix p _

theorem trimChars_trimChars (p : Char → Bool) (cs : List Char) :
    trimChars p (trimChars p cs) = trimChars p cs := by
  -- what is cut off at the end leaves the first character, which is not of the class
  have hfirst : (trimChars p cs).dropWhile p = trimChars p cs := by
    rw [List.dropWhile_eq_self_iff]
    intro hlt
    rw [(trimChars_prefix_dropWhile p cs).getElem hlt]
    exact List.dropWhile_get_zero_not p cs
      (hlt.trans_le (trimChars_prefix_dropWhile p cs).length_le)
  have hlast : (trimChars p cs).rdropWhile p = trimChars p cs := List.rdropWhile_idempotent p _
  calc trimChars p (trimChars p cs)
      = ((trimChars p cs).dropWhile p).rdropWhile p := rfl
    _ = trimChars p cs := by rw [hfirst, hlast]

@[simp]
theorem strip_strip (s : String) : strip (strip s) = strip s := by
  simp [strip, trimChars_trimChars]

theorem mem_of_mem_strip {c : Char} {s : String} (h : c ∈ (strip s).toList) : c ∈ s.toList := by
  rw [strip, String.toList_ofList] at h
  exact (List.dropWhile_suffix isBlank).subset
    ((trimChars_prefix_dropWhile isBlank s.toList).subset h)

/-! ## Clean entries -/

/-- An entry that cleaning leaves as it is. -/
def IsEntry (e : String) : Prop := strip e = e ∧ e ≠ ""

instance (e : String) : Decidable (IsEntry e) := inferInstanceAs (Decidable (_ ∧ _))

theorem mem_cleanEntries {l : List String} {e : String} :
    e ∈ cleanEntries l ↔ (∃ raw ∈ l, strip raw = e) ∧ e ≠ "" := by
  simp [cleanEntries]

theorem isEntry_of_mem_cleanEntries {l : List String} {e : String} (h : e ∈ cleanEntries l) :
    IsEntry e := by
  obtain ⟨⟨raw, -, rfl⟩, hne⟩ := mem_cleanEntries.1 h
  exact ⟨strip_strip raw, hne⟩

theorem cleanEntries_of_isEntry {l : List String} (h : ∀ e ∈ l, IsEntry e) :
    cleanEntries l = l := by
  have hstripped : l.map strip = l :=
    (List.map_congr_left fun e he => (h e he).1).trans (List.map_id' l)
  rw [cleanEntries, hstripped, List.filter_eq_self]
  intro e he
  exact decide_eq_true (h e he).2

@[simp]
theorem cleanEntries_cleanEntries (l : List String) :
    cleanEntries (cleanEntries l) = cleanEntries l :=
  cleanEntries_of_isEntry fun _ => isEntry_of_mem_cleanEntries

namespace Config

theorem cleanKeywords_eq (l : List String) :
    cleanKeywords l = if cleanEntries l = [] then defaultKeywords else cleanEntries l := by
  unfold cleanKeywords
  split <;> simp_all

theorem cleanKeywords_ne_nil (l : List String) : cleanKeywords l ≠ [] := by
  rw [cleanKeywords_eq]
  split
  · decide
  · next hne => exact hne

/-- What the default keywords have in common with the entries of a list, the keywords have. -/
theorem of_mem_cleanKeywords {P : String → Prop} {l : List String}
    (hdefault : ∀ e ∈ defaultKeywords, P e) (hl : ∀ e ∈ cleanEntries l, P e) :
    ∀ e ∈ cleanKeywords l, P e := by
  rw [cleanKeywords_eq]
  split
  · exact hdefault
  · exact hl

theorem isEntry_of_mem_cleanKeywords (l : List String) : ∀ e ∈ cleanKeywords l, IsEntry e :=
  of_mem_cleanKeywords (by decide +kernel) fun _ => isEntry_of_mem_cleanEntries

theorem cleanKeywords_of_isEntry {l : List String} (h : ∀ e ∈ l, IsEntry e) (hne : l ≠ []) :
    cleanKeywords l = l := by
  rw [cleanKeywords_eq, cleanEntries_of_isEntry h, if_neg hne]

/-- The entries of a snapshot that was cleaned are clean. -/
theorem clean_clean (paths keywords : List String) (version : LuaVersion) (resolve : Bool) :
    clean (cleanEntries paths) (cleanKeywords keywords) version resolve =
      clean paths keywords version resolve := by
  rw [clean, cleanEntries_cleanEntries, cleanKeywords_of_isEntry
    (isEntry_of_mem_cleanKeywords keywords) (cleanKeywords_ne_nil keywords)]
  rfl

/-! ## Reading a snapshot back -/

theorem itemsFrom_strings (l : List String) (i : Nat) :
    Json.itemsFrom Json.text i (l.map .string) = .valid l := by
  induction l generalizing i with
  | nil => rfl
  | cons s l ih =>
    rw [List.map_cons, Json.itemsFrom, ih]
    rfl

theorem listOf_strings (l : List String) : Json.listOf Json.text (.strings l) = .valid l :=
  itemsFrom_strings l 0

theorem version_name (v : LuaVersion) : Json.version (.string v.name) = .valid v := by
  cases v <;> decide +kernel

/-- The JSON form of a snapshot is read field by field. -/
theorem ofJson_toJson (c : Config) :
    ofJson c.toJson =
      .valid (clean c.searchPaths c.includeKeywords c.version c.resolveFunctions) := by
  change clean <$> (Json.listOf Json.text (.strings c.searchPaths)).under (.key "search_paths") <*>
    (Json.listOf Json.text (.strings c.includeKeywords)).under (.key "include_keywords") <*>
    (Json.version (.string c.version.name)).under (.key "lua_version") <*>
    (Json.boolean (.bool c.resolveFunctions)).under (.key "resolve_function_declarations") = _
  rw [listOf_strings, listOf_strings, version_name]
  rfl

theorem exists_clean_of_ofJson {j : Json} {c : Config} (h : ofJson j = .valid c) :
    ∃ paths keywords version resolve, c = clean paths keywords version resolve := by
  cases j with
  | object fields =>
    change ofFields fields = .valid c at h
    obtain ⟨f₁, resolve, h₁, -, rfl⟩ := Checked.exists_of_seq h
    obtain ⟨f₂, version, h₂, -, rfl⟩ := Checked.exists_of_seq h₁
    obtain ⟨f₃, keywords, h₃, -, rfl⟩ := Checked.exists_of_seq h₂
    obtain ⟨paths, -, rfl⟩ := Checked.exists_of_map h₃
    exact ⟨paths, keywords, version, resolve, rfl⟩
  | _ => cases h

theorem ofJson_toJson_clean (paths keywords : List String) (version : LuaVersion)
    (resolve : Bool) :
    ofJson (clean paths keywords version resolve).toJson =
      .valid (clean paths keywords version resolve) := by
  rw [ofJson_toJson]
  exact congrArg Checked.valid (clean_clean paths keywords version resolve)

end Config

/-! ## Settings that join entries -/

/-- One character separates the pieces of a text as it does those of a list. -/
theorem pieces_singleton (sep : Char) (cs : List Char) : pieces [sep] cs = cs.splitOn sep := by
  unfold pieces
  induction cs with
  | nil => rfl
  | cons c cs ih =>
    obtain ⟨first, rest, hsplit⟩ := List.exists_cons_of_ne_nil (List.splitOn_ne_nil sep cs)
    rw [piecesFrom, List.splitOn_cons_eq_if_modifyHead, List.length_singleton, Nat.sub_self, ih,
      hsplit]
    by_cases hc : c = sep
    · simp [hc]
    · simp [hc, Ne.symm hc, consFirst]

theorem separator_not_mem {sep : Char} {value e : String} (h : e ∈ settingItems [sep] value) :
    sep ∉ e.toList := by
  obtain ⟨⟨raw, hraw, rfl⟩, -⟩ := mem_cleanEntries.1 h
  obtain ⟨piece, hpiece, rfl⟩ := List.mem_map.1 hraw
  rw [pieces_singleton] at hpiece
  intro hmem
  have hpart := mem_of_mem_strip hmem
  rw [String.toList_ofList] at hpart
  exact Path.separator_not_mem_of_mem_splitOn hpiece hpart

/-- Entries without the separator are what splitting their join gives. -/
theorem settingItems_intercalate {separator : String} {sep : Char} {items : List String}
    (hseparator : separator.toList = [sep]) (h : ∀ e ∈ items, IsEntry e)
    (hsep : ∀ e ∈ items, sep ∉ e.toList) :
    settingItems [sep] (separator.intercalate items) = items := by
  rw [settingItems, pieces_singleton, String.toList_intercalate, hseparator]
  by_cases hnil : items = []
  · subst hnil
    rfl
  · have hsplit : ([sep].intercalate (items.map String.toList)).splitOn sep =
        items.map String.toList :=
      List.splitOn_intercalate sep (by simpa using hsep) (by simpa using hnil)
    rw [hsplit, List.map_map]
    simpa [Function.comp_def] using cleanEntries_of_isEntry h

namespace Settings

/-- Checking a snapshot leaves the search paths as the setting was split. -/
theorem searchPaths_toConfig (s : Settings) : s.toConfig.searchPaths = s.searchPaths :=
  cleanEntries_cleanEntries _

theorem splitSetting?_searchPaths (s : Settings) :
    splitSetting? s.luaSearchPaths ";" = some s.toConfig.searchPaths := by
  rw [searchPaths_toConfig, splitSetting?, searchPaths]
  split
  · next hempty =>
    rw [hempty]
    rfl
  · rfl

theorem searchPaths_of_join {s again : Settings}
    (h : again.luaSearchPaths = ";".intercalate s.toConfig.searchPaths) :
    again.searchPaths = s.toConfig.searchPaths := by
  rw [searchPaths, h, searchPaths_toConfig]
  exact settingItems_intercalate rfl (fun _ => isEntry_of_mem_cleanEntries)
    fun _ => separator_not_mem

/-- No default keyword has the separator in it, so they too are read back. -/
theorem includeKeywords_of_join {s again : Settings}
    (h : again.luaIncludeKeywords = ",".intercalate s.toConfig.includeKeywords) :
    again.includeKeywords = s.toConfig.includeKeywords := by
  have hsep : ∀ e ∈ s.toConfig.includeKeywords, ',' ∉ e.toList := by
    refine Config.of_mem_cleanKeywords (by decide +kernel) fun e he => ?_
    rw [includeKeywords, settingItems, cleanEntries_cleanEntries] at he
    exact separator_not_mem he
  rw [includeKeywords, h]
  exact settingItems_intercalate rfl (Config.isEntry_of_mem_cleanKeywords _) hsep

theorem toConfig_of_join {s again : Settings}
    (hpaths : again.luaSearchPaths = ";".intercalate s.toConfig.searchPaths)
    (hkeywords : again.luaIncludeKeywords = ",".intercalate s.toConfig.includeKeywords)
    (hversion : again.luaVersion = s.luaVersion)
    (hresolve : again.resolveFunctions = s.resolveFunctions) : again.toConfig = s.toConfig := by
  rw [toConfig, searchPaths_of_join hpaths, includeKeywords_of_join hkeywords, hversion, hresolve]
  exact Config.clean_clean s.searchPaths s.includeKeywords s.luaVersion s.resolveFunctions

end Settings

/-! ## The configuration of a service -/

namespace Service

/-- Asks for the configuration. -/
def configurationQuery : Request := { method := "GET", path := "/configuration" }

/-- Replaces the configuration. -/
def configurationUpdate (j : Json) : Request :=
  { method := "PUT", path := "/configuration", body := .value j }

theorem handle_configurationQuery (d : Disk) (s : Index) :
    handle d s configurationQuery = (.ok s.config.toJson, s) := by
  rfl

theorem verb_configurationUpdate (j : Json) : (configurationUpdate j).verb = "PUT" := by
  change String.ofList ("PUT".toList.map Char.toUpper) = "PUT"
  decide +kernel

theorem dispatch_configurationUpdate (d : Disk) (s : Index) (j : Json) :
    dispatch d s (configurationUpdate j) = answer d s "PUT" (.value j) .configuration := by
  have hroute : Route.find? (Route.pathOf (configurationUpdate j).path) = some .configuration := by
    change Route.find? (Route.pathOf "/configuration") = some .configuration
    decide +kernel
  rw [dispatch, verb_configurationUpdate, hroute]
  exact if_pos (by decide +kernel)

theorem handle_configurationUpdate {j : Json} {c : Config} (h : Config.ofJson j = .valid c)
    (d : Disk) (s : Index) :
    handle d s (configurationUpdate j) = (.ok c.toJson, s.configure c) := by
  cases j with
  | object fields =>
    have hdecode : (Body.value (.object fields)).decode Config.ofFields = .ok c := by
      rw [Body.decode, show Config.ofFields fields = .valid c from h]
      rfl
    rw [handle, dispatch_configurationUpdate, answer, if_pos rfl, withBody, hdecode,
      verb_configurationUpdate]
    exact congrArg (·, s.configure c) (if_neg (by decide))
  | _ => cases h

end Service

/-- **A configuration is in a normal form that every round trip keeps.** Whatever JSON value a
snapshot was read from, it is read back from its own JSON form as it is; so a service that is
told the configuration it answers with answers the same and keeps it, and does no more than
mark the records for another walk. For all settings, the search paths of the snapshot are the
items of their setting. Settings that join the search paths of a snapshot with semicolons and its
keywords with commas give the snapshot again, also where the keywords are the default ones
because all of those that were set are blank. -/
theorem config_round_trips :
    (∀ (j : Json) (c : Config), Config.ofJson j = .valid c → Config.ofJson c.toJson = .valid c ∧
      ∀ (d : Disk) (s : Index), s.config = c →
        ∃ body, Service.handle d s Service.configurationQuery = (.ok body, s) ∧
          Service.handle d s (Service.configurationUpdate body) = (.ok body, s.configure c)) ∧
    ∀ settings : Settings,
      splitSetting? settings.luaSearchPaths ";" = some settings.toConfig.searchPaths ∧
      Config.ofJson settings.toConfig.toJson = .valid settings.toConfig ∧
      ∀ again : Settings,
        again.luaSearchPaths = ";".intercalate settings.toConfig.searchPaths →
        again.luaIncludeKeywords = ",".intercalate settings.toConfig.includeKeywords →
        again.luaVersion = settings.luaVersion →
        again.resolveFunctions = settings.resolveFunctions →
        again.toConfig = settings.toConfig := by
  refine ⟨fun j c h => ?_, fun settings => ?_⟩
  · obtain ⟨paths, keywords, version, resolve, hc⟩ := Config.exists_clean_of_ofJson h
    have hback : Config.ofJson c.toJson = .valid c := by
      rw [hc]
      exact Config.ofJson_toJson_clean paths keywords version resolve
    refine ⟨hback, fun d s hconfig => ⟨c.toJson, ?_, Service.handle_configurationUpdate hback d s⟩⟩
    rw [Service.handle_configurationQuery, hconfig]
  · exact ⟨settings.splitSetting?_searchPaths, Config.ofJson_toJson_clean _ _ _ _,
      fun again => Settings.toConfig_of_join⟩

/-- Settings with a search path among blanks, and with keywords that are all blank. -/
def sparseSettings : Settings where
  appName := "Lua Code Index"
  appVersion := "0.1.0"
  debug := false
  host := "127.0.0.1"
  port := 8080
  workspaceRoot := "/"
  globalScriptPatterns := ""
  luaSearchPaths := "; a b ;\u3000;?.lua"
  luaIncludeKeywords := " ,\t"
  luaVersion := .luaJit
  resolveFunctions := true
  corsOrigins := "*"

def joinedSettings : Settings :=
  { sparseSettings with
    luaSearchPaths := "a b;?.lua"
    luaIncludeKeywords := "Include,Require,require,dofile,include" }

theorem config_round_trips_sparse :
    Config.ofJson sparseSettings.toConfig.toJson = .valid sparseSettings.toConfig ∧
      sparseSettings.toConfig = ⟨["a b", "?.lua"], defaultKeywords, .luaJit, true⟩ ∧
      joinedSettings.toConfig = sparseSettings.toConfig ∧
      ∃ body, Service.handle (.ofRoot []) (.create "/" "/" sparseSettings.toConfig)
        (Service.configurationUpdate body) =
          (.ok body, .create "/" "/" sparseSettings.toConfig) := by
  obtain ⟨hread, hsettings⟩ := config_round_trips
  obtain ⟨-, hback, hagain⟩ := hsettings sparseSettings
  obtain ⟨body, -, hupdate⟩ := (hread _ _ hback).2 (.ofRoot [])
    (.create "/" "/" sparseSettings.toConfig) rfl
  have hconfig : sparseSettings.toConfig = ⟨["a b", "?.lua"], defaultKeywords, .luaJit, true⟩ := by
    decide +kernel
  refine ⟨hback, hconfig, hagain joinedSettings ?_ ?_ rfl rfl, body, hupdate⟩
  · rw [hconfig]
    decide +kernel
  · rw [hconfig]
    decide +kernel

end LuaSymbols
