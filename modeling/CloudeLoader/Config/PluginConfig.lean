import CloudeLoader.Config.Store

/-!
# The configuration of a plugin (`plugin_config.cc`)

Each plugin has an object of its own, under `plugins.<name>.config`.  The frontend and the child of the plugin set and
delete its members.
-/

namespace CloudeLoader.Config

open Option

open Engine (Bytes utf8)

def pluginsKey : Bytes := utf8 "plugins"
def configKey : Bytes := utf8 "config"

def isReservedName (name : Bytes) : Bool := name = utf8 "enabledPlugins"

def pluginConfig (data : JsonValue) (plugin : Bytes) : JsonValue := get data [pluginsKey, plugin] configKey (.obj [])

theorem pluginConfig_eq (data : JsonValue) (plugin : Bytes) :
    pluginConfig data plugin = ((child (child data pluginsKey) plugin).field? configKey).getD (.obj []) := by
  unfold pluginConfig
  rw [← get_child, ← get_child, get]

variable {cmp : Comparison} {data value config : JsonValue} {plugin key : Bytes}

theorem pluginConfig_set :
    pluginConfig (assignBy cmp.equal data [pluginsKey, plugin, configKey] key value) plugin =
      putMemberBy cmp.equal (asObject (child (child (child data pluginsKey) plugin) configKey)) key value := by
  simp only [pluginConfig, get, assignBy, JsonValue.field?_setField, if_true, getD_some]

theorem field?_pluginConfig_set (hne : value ≠ .null)
    (htold : tells cmp.equal data [pluginsKey, plugin, configKey] key value = true) (k : Bytes) :
    (pluginConfig (assignBy cmp.equal data [pluginsKey, plugin, configKey] key value) plugin).field? k =
      if k = key then some value else (pluginConfig data plugin).field? k := by
  rw [pluginConfig_set]
  split
  · next h =>
    subst h
    refine field?_putMemberBy_self hne ?_
    rw [tells_iff, get, field?_asObject]
    rw [tells_iff, ← get_child, ← get_child, ← get_child, get] at htold
    exact htold
  · next h => rw [field?_putMemberBy_ne h, field?_asObject, field?_child, pluginConfig_eq]

theorem pluginConfig_write (h : config.isObject = true)
    (htold : tells cmp.equal data [pluginsKey, plugin] configKey config = true) :
    pluginConfig (assignBy cmp.equal data [pluginsKey, plugin] configKey config) plugin = config := by
  refine get_assignBy_self ?_ htold
  rintro rfl
  cases h

/-- How a call ends: with a result, with an error text, or with an exception. -/
inductive Outcome
  | success
  | failed (error : Bytes)
  | threw

/-- `validate_limits`: the error text, empty if there is none; `none` if it throws.  `textSize` is the length of the text of a
value. -/
def validateLimits (textSize : JsonValue → Nat) (data : JsonValue) (plugin key : Bytes) (value : JsonValue) : Option Bytes :=
  if isReservedName plugin then some (utf8 "reserved plugin name: " ++ plugin)
  else if key.length > 512 then some (utf8 "config key too long (max 512 bytes)")
  else
    let current := pluginConfig data plugin
    if !current.contains key && current.size ≥ 256 then some (utf8 "plugin config key limit exceeded (max 256)")
    else if value.dump = none then none
    else if textSize value > 256 * 1024 then some (utf8 "plugin config value too large (max 256KB)")
    else some []

theorem validateLimits_iff {textSize : JsonValue → Nat} :
    validateLimits textSize data plugin key value = some [] ↔
      isReservedName plugin = false ∧ key.length ≤ 512 ∧
        ((pluginConfig data plugin).contains key = true ∨ (pluginConfig data plugin).size < 256) ∧
        value.dump ≠ none ∧ textSize value ≤ 256 * 1024 := by
  unfold validateLimits
  split
  · next hres =>
    have htext : utf8 "reserved plugin name: " ≠ [] := by decide
    simp [hres, htext]
  next hres =>
  split
  · next hlen => exact iff_of_false (by decide) (by omega)
  next hlen =>
  dsimp only
  split
  · next hfull =>
    simp only [Bool.and_eq_true, Bool.not_eq_true', decide_eq_true_eq] at hfull
    refine iff_of_false (by decide) ?_
    rintro ⟨-, -, hroom, -⟩
    simp only [hfull.1, Bool.false_eq_true, false_or] at hroom
    omega
  next hroom =>
  split
  · next hdump => exact iff_of_false (by simp) (by simp [hdump])
  next hdump =>
  split
  · next hsize => exact iff_of_false (by decide) (by omega)
  next hsize =>
  simp only [Bool.and_eq_true, Bool.not_eq_true', decide_eq_true_eq, not_and, Nat.not_le] at hroom
  refine iff_of_true rfl ⟨by simpa using hres, by omega, ?_, hdump, by omega⟩
  cases hcon : (pluginConfig data plugin).contains key with
  | true => exact .inl rfl
  | false => exact .inr (hroom hcon)

namespace ConfigManager

variable (cmp : Comparison) (textSize : JsonValue → Nat) (io : SaveIo)

def setAndSave (m : ConfigManager) (names : List Bytes) (last : Bytes) (value : JsonValue) : ConfigManager × Outcome :=
  match m.set cmp names last value with
  | none => (m, .threw)
  | some m =>
    match m.saveToDisk io with
    | none => (m, .threw)
    | some m => (m, .success)

def setConfig (m : ConfigManager) (plugin key : Bytes) (value : JsonValue) : ConfigManager × Outcome :=
  if key = [] then (m, .failed (utf8 "missing key"))
  else
    match validateLimits textSize m.data plugin key value with
    | none => (m, .threw)
    | some error =>
      if error ≠ [] then (m, .failed error)
      else m.setAndSave cmp io [pluginsKey, plugin, configKey] key value

def delConfig (m : ConfigManager) (plugin key : Bytes) : ConfigManager × Outcome :=
  if isReservedName plugin then (m, .failed (utf8 "reserved plugin name: " ++ plugin))
  else if key = [] then (m, .failed (utf8 "missing key"))
  else
    let config := pluginConfig m.data plugin
    if config.isObject then m.setAndSave cmp io [pluginsKey, plugin] configKey (config.eraseField key) else (m, .threw)

def deleteAllConfig (m : ConfigManager) (plugin : Bytes) : ConfigManager × Outcome :=
  if plugin = [] then (m, .failed (utf8 "missing pluginName"))
  else if isReservedName plugin then (m, .failed (utf8 "reserved plugin name: " ++ plugin))
  else m.setAndSave cmp io [pluginsKey, plugin] configKey (.obj [])

/-! ### What is stored -/

def accepts (m : ConfigManager) (plugin key : Bytes) (value : JsonValue) : Bool :=
  key ≠ [] && validateLimits textSize m.data plugin key value = some [] && settable m.data [pluginsKey, plugin, configKey]

def removes (m : ConfigManager) (plugin key : Bytes) : Bool :=
  !isReservedName plugin && key ≠ [] && (pluginConfig m.data plugin).isObject && settable m.data [pluginsKey, plugin]

variable {cmp textSize io} {m : ConfigManager} {names : List Bytes} {last : Bytes}

theorem withData_setAndSave :
    m.withData (if settable m.data names then assignBy cmp.equal m.data names last value else m.data)
      (m.setAndSave cmp io names last value).1 := by
  unfold setAndSave set setBy
  by_cases hs : settable m.data names = true
  · simp only [hs, if_true, map_some]
    split
    · exact ⟨rfl, rfl⟩
    · next hsave => exact withData_saveToDisk hsave
  · simp only [hs, Bool.false_eq_true, if_false, map_none]
    exact ⟨rfl, rfl⟩

theorem withData_setConfig :
    m.withData (if m.accepts textSize plugin key value then assignBy cmp.equal m.data [pluginsKey, plugin, configKey] key value else m.data)
      (m.setConfig cmp textSize io plugin key value).1 := by
  unfold setConfig accepts
  by_cases hkey : key = []
  · simp only [hkey, ne_eq, not_true, decide_false, Bool.false_and, Bool.false_eq_true, if_false, if_true]
    exact ⟨rfl, rfl⟩
  rw [if_neg hkey]
  cases hlim : validateLimits textSize m.data plugin key value with
  | none =>
    simp only [reduceCtorEq, decide_false, Bool.and_false, Bool.false_and, Bool.false_eq_true, if_false]
    exact ⟨rfl, rfl⟩
  | some error =>
    by_cases herr : error = []
    · simp only [hkey, herr, ne_eq, not_true, not_false_eq_true, decide_true, Bool.true_and, if_false]
      exact withData_setAndSave
    · simp only [some.injEq, herr, decide_false, Bool.and_false, Bool.false_and, Bool.false_eq_true, ne_eq,
        not_false_eq_true, if_true, if_false]
      exact ⟨rfl, rfl⟩

theorem withData_delConfig :
    m.withData (if m.removes plugin key then
        assignBy cmp.equal m.data [pluginsKey, plugin] configKey ((pluginConfig m.data plugin).eraseField key) else m.data)
      (m.delConfig cmp io plugin key).1 := by
  have hsame : m.withData m.data m := ⟨rfl, rfl⟩
  unfold delConfig removes
  by_cases hres : isReservedName plugin = true
  · simpa [hres] using hsame
  by_cases hkey : key = []
  · simpa [hres, hkey] using hsame
  by_cases hobj : (pluginConfig m.data plugin).isObject = true
  · simp only [hres, hkey, hobj, Bool.not_false, ne_eq, not_false_eq_true, decide_true, Bool.true_and, Bool.false_eq_true,
      if_true, if_false]
    exact withData_setAndSave
  · simpa [hres, hkey, hobj] using hsame

end ConfigManager

end CloudeLoader.Config
