import CloudeLoader.Config.Password

/-!
# Enabling and disabling a plugin (`plugin_manager.cc`)

`set_plugin_enabled` reads the strings of the stored list, adds the name of the plugin or erases it once, and writes the
list back.  `is_enabled` looks for the name anywhere in the stored list.
-/

namespace CloudeLoader.Config

open Engine (Bytes utf8)

def enabledPlugins (data : JsonValue) : List Bytes := stringsOf (get data [pluginsKey] enabledPluginsKey (.arr []))

def setPluginEnabled (cmp : Comparison) (listeners : JsonValue → JsonValue) (data : JsonValue) (plugin : Bytes)
    (enabled : Bool) : JsonValue :=
  ((Update.setPluginEnabled plugin enabled listeners).toReadWrite cmp fun _ => 0).apply data

section Enabling

variable {cmp : Comparison} {listeners : JsonValue → JsonValue} {data : JsonValue} {plugin other : Bytes} {enabled : Bool} {names : List Bytes}

theorem stringsOf_map (names : List Bytes) : stringsOf (.arr (names.map .str)) = names := by
  induction names with
  | nil => rfl
  | cons name names ih =>
    simp only [stringsOf, List.map_cons, List.filterMap_cons] at ih ⊢
    rw [ih]

theorem isPlain_map_str (names : List Bytes) : (JsonValue.arr (names.map .str)).isPlain = true := by
  rw [JsonValue.isPlain, JsonValue.everywhere]
  induction names with
  | nil => rfl
  | cons name names ih => exact ih

theorem isEnabled_eq (data : JsonValue) (plugin : Bytes) : isEnabled data plugin = (enabledPlugins data).contains plugin := rfl

theorem enabledPlugins_congr {data' : JsonValue} (h : data.field? pluginsKey = data'.field? pluginsKey) :
    enabledPlugins data = enabledPlugins data' := by
  unfold enabledPlugins
  rw [get_congr h]

theorem enabledPlugins_setPluginEnabled (hl : KeepPlugins listeners) (hdata : data.isObject = true) :
    enabledPlugins (setPluginEnabled cmp listeners data plugin enabled) = toggle (enabledPlugins data) plugin enabled := by
  have hwrt : enabledPlugins (assignBy cmp.equal data [pluginsKey] enabledPluginsKey
      (.arr ((toggle (enabledPlugins data) plugin enabled).map .str))) = toggle (enabledPlugins data) plugin enabled := by
    rw [enabledPlugins, get_assignBy_self (by simp) (tells_of_isPlain cmp (isPlain_map_str _)), stringsOf_map]
  have hset : settable data [pluginsKey] = true := by simp [settable, hdata]
  simp only [setPluginEnabled, ReadWrite.apply, Update.toReadWrite, Update.plan, Update.write, setBy, hset, if_true]
  split
  · exact (enabledPlugins_congr (hl _)).trans hwrt
  · exact hwrt

theorem contains_toggle_of_ne (h : other ≠ plugin) : (toggle names plugin enabled).contains other = names.contains other := by
  cases enabled with
  | true =>
    unfold toggle
    by_cases hmem : plugin ∈ names
    · simp [hmem]
    · simp [hmem, h]
  | false => simp [toggle, List.mem_erase_of_ne h]

theorem contains_toggle_self_iff :
    (toggle names plugin enabled).contains plugin = enabled ↔ enabled = true ∨ names.count plugin ≤ 1 := by
  cases enabled with
  | true =>
    unfold toggle
    by_cases hmem : plugin ∈ names
    · simp [hmem]
    · simp [hmem]
  | false =>
    have hcnt : plugin ∈ names.erase plugin ↔ 0 < names.count plugin - 1 := by
      rw [← List.count_pos_iff, List.count_erase_self]
    simp only [toggle, Bool.false_eq_true, if_false, false_or, List.contains_eq_mem, decide_eq_false_iff_not]
    rw [hcnt]
    omega

end Enabling

/-- Whatever is stored: afterwards the plugin is enabled as was asked for, and no other plugin has changed, if and only if the
plugin was to be enabled or its name was in the list at most once. -/
theorem enabling_iff (cmp : Comparison) (listeners : JsonValue → JsonValue) (hl : KeepPlugins listeners) (data : JsonValue)
    (hdata : data.isObject = true) (plugin : Bytes) (enabled : Bool) :
    (isEnabled (setPluginEnabled cmp listeners data plugin enabled) plugin = enabled ∧
        ∀ other, other ≠ plugin →
          isEnabled (setPluginEnabled cmp listeners data plugin enabled) other = isEnabled data other) ↔
      enabled = true ∨ (enabledPlugins data).count plugin ≤ 1 := by
  simp only [isEnabled_eq, enabledPlugins_setPluginEnabled hl hdata]
  rw [contains_toggle_self_iff, and_iff_left_iff_imp]
  intro _ other hne
  exact contains_toggle_of_ne hne

def enabledData (names : List Bytes) : JsonValue :=
  .obj [(pluginsKey, .obj [(enabledPluginsKey, .arr (names.map .str))])]

theorem enabling_disables :
    isEnabled (setPluginEnabled .same id (enabledData [utf8 "p", utf8 "q"]) (utf8 "p") false) (utf8 "p") = false :=
  ((enabling_iff .same id (fun _ => rfl) (enabledData [utf8 "p", utf8 "q"]) rfl (utf8 "p") false).2
    (.inr (by decide +kernel))).1

theorem listed_twice_still_enabled :
    isEnabled (setPluginEnabled .same id (enabledData [utf8 "p", utf8 "p"]) (utf8 "p") false) (utf8 "p") ≠ false := by
  decide +kernel

end CloudeLoader.Config
