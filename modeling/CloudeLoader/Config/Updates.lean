import CloudeLoader.Config.Laws
import CloudeLoader.Config.PluginConfig
import CloudeLoader.Lib.ReadWrite

/-!
# Concurrent updates (`plugin_config.cc`, `plugin_manager.cc`)

`set`, `del` and `set_plugin_enabled` each call `CONFIG.get` and then `CONFIG.set`.  The two calls are atomic, but another
thread can write between them.
-/

namespace CloudeLoader.Config

open ReadWrite

open Engine (Bytes utf8)

def enabledPluginsKey : Bytes := utf8 "enabledPlugins"

def stringsOf : JsonValue → List Bytes
  | .arr xs => xs.filterMap fun
    | .str s => some s
    | _ => none
  | _ => []

def toggle (names : List Bytes) (plugin : Bytes) (enabled : Bool) : List Bytes :=
  if enabled then if names.contains plugin then names else names ++ [plugin] else names.erase plugin

/-- An operation.  `listeners` is what the listeners leave of the configuration when the operation calls them. -/
inductive Update
  | set (plugin key : Bytes) (value : JsonValue)
  | del (plugin key : Bytes)
  | setPluginEnabled (plugin : Bytes) (enabled : Bool) (listeners : JsonValue → JsonValue)

/-- The listeners leave the member `plugins` as it is. -/
def KeepPlugins (listeners : JsonValue → JsonValue) : Prop :=
  ∀ data, (listeners data).field? pluginsKey = data.field? pluginsKey

namespace Update

variable (cmp : Comparison) (textSize : JsonValue → Nat)

def plan (data : JsonValue) : Update → Option JsonValue
  | .set plugin key value =>
    if key ≠ [] && validateLimits textSize data plugin key value = some [] then some value else none
  | .del plugin key =>
    if !isReservedName plugin && key ≠ [] && (pluginConfig data plugin).isObject then
      some ((pluginConfig data plugin).eraseField key)
    else none
  | .setPluginEnabled plugin enabled _ =>
    let enabledPlugins := stringsOf (get data [pluginsKey] enabledPluginsKey (.arr []))
    some (.arr ((toggle enabledPlugins plugin enabled).map .str))

def write (value data : JsonValue) : Update → JsonValue
  | .set plugin key _ => (setBy cmp.equal data [pluginsKey, plugin, configKey] key value).getD data
  | .del plugin _ => (setBy cmp.equal data [pluginsKey, plugin] configKey value).getD data
  | .setPluginEnabled _ _ listeners =>
    match setBy cmp.equal data [pluginsKey] enabledPluginsKey value with
    | none => data
    | some written =>
      -- the lock is held while the listeners are called
      if changesBy cmp.equal data [pluginsKey] enabledPluginsKey value then listeners written else written

def toReadWrite (u : Update) : ReadWrite JsonValue JsonValue :=
  ⟨fun data => u.plan textSize data, fun v data => u.write cmp v data⟩

/-! ### What an operation reads and writes -/

/-- The path of the object or list that the operation reads. -/
def readPath : Update → List Bytes
  | .set plugin _ _ => [pluginsKey, plugin, configKey]
  | .del plugin _ => [pluginsKey, plugin, configKey]
  | .setPluginEnabled _ _ _ => [pluginsKey, enabledPluginsKey]

def writtenPath : Update → List Bytes
  | .set plugin key _ => [pluginsKey, plugin, configKey, key]
  | u => u.readPath

/-- What the first operation writes can change what the second has decided on what it has read.  The limit on the number of
members is all that two calls of `set` for one plugin share. -/
def disturbs (data : JsonValue) : Update → Update → Bool
  | .set plugin key _, .set other name _ =>
    let config := pluginConfig data plugin
    plugin = other && !(key = name || config.contains name || config.size < 255)
  | u, v => !decide (Apart u.writtenPath v.readPath)

def KeepsPlugins : Update → Prop
  | .setPluginEnabled _ _ listeners => KeepPlugins listeners
  | _ => True

variable {cmp textSize} {data data' value a b : JsonValue} {plugin key other name : Bytes} {u v : Update}

theorem apply_set (io : SaveIo) (m : ConfigManager) (plugin key : Bytes) (value : JsonValue) :
    ((set plugin key value).toReadWrite cmp textSize).apply m.data = (m.setConfig cmp textSize io plugin key value).1.data := by
  rw [ConfigManager.withData_setConfig.1]
  unfold apply ConfigManager.accepts
  simp only [toReadWrite, plan]
  by_cases h : (key ≠ [] && validateLimits textSize m.data plugin key value = some []) = true
  · rw [h]
    exact getD_setBy
  · rw [if_neg h, eq_false_of_ne_true h]
    rfl

theorem apply_del (io : SaveIo) (m : ConfigManager) (plugin key : Bytes) :
    ((del plugin key).toReadWrite cmp textSize).apply m.data = (m.delConfig cmp io plugin key).1.data := by
  rw [ConfigManager.withData_delConfig.1]
  unfold apply ConfigManager.removes
  simp only [toReadWrite, plan]
  by_cases h : (!isReservedName plugin && key ≠ [] && (pluginConfig m.data plugin).isObject) = true
  · rw [h]
    exact getD_setBy
  · rw [if_neg h, eq_false_of_ne_true h]
    rfl

theorem pluginConfig_congr (h : data'.get? [pluginsKey, plugin, configKey] = data.get? [pluginsKey, plugin, configKey]) :
    pluginConfig data' plugin = pluginConfig data plugin := by
  rw [pluginConfig, pluginConfig, get_eq, get_eq]
  exact congrArg (Option.getD · _) h

theorem plan_congr (h : data'.get? u.readPath = data.get? u.readPath) : u.plan textSize data' = u.plan textSize data := by
  cases u with
  | set plugin key value => simp only [plan, validateLimits, pluginConfig_congr h]
  | del plugin key => simp only [plan, pluginConfig_congr h]
  | setPluginEnabled plugin enabled listeners =>
    simp only [plan, get_eq, List.singleton_append]
    rw [show data'.get? [pluginsKey, enabledPluginsKey] = _ from h]
    rfl

theorem get?_getD_setBy {names last} {q : List Bytes} (h : Apart (names ++ [last]) q) :
    ((setBy cmp.equal data names last value).getD data).get? q = data.get? q := by
  rw [getD_setBy]
  split
  · exact get?_assignBy_of_apart h
  · rfl

/-- What is written to one path leaves what is read by another. -/
theorem get?_write {q : List Bytes} (hl : u.KeepsPlugins) (h : Apart u.writtenPath (pluginsKey :: q)) :
    (u.write cmp a data).get? (pluginsKey :: q) = data.get? (pluginsKey :: q) := by
  cases u with
  | set plugin key value => exact get?_getD_setBy h
  | del plugin key => exact get?_getD_setBy h
  | setPluginEnabled plugin enabled listeners =>
    have hset : ((setBy cmp.equal data [pluginsKey] enabledPluginsKey a).getD data).get? (pluginsKey :: q) = _ :=
      get?_getD_setBy h
    simp only [write]
    cases hw : setBy cmp.equal data [pluginsKey] enabledPluginsKey a with
    | none => rfl
    | some written =>
      rw [hw] at hset
      dsimp only
      split
      · rw [JsonValue.get?_cons, hl written, ← JsonValue.get?_cons]
        exact hset
      · exact hset

theorem room_set (hold : (pluginConfig data plugin).contains name = true ∨ (pluginConfig data plugin).size < 256)
    (h : key = name ∨ (pluginConfig data plugin).contains name = true ∨ (pluginConfig data plugin).size < 255) :
    (pluginConfig (assignBy cmp.equal data [pluginsKey, plugin, configKey] key a) plugin).contains name = true ∨
      (pluginConfig (assignBy cmp.equal data [pluginsKey, plugin, configKey] key a) plugin).size < 256 := by
  have hfld : (child (child (child data pluginsKey) plugin) configKey).contains name = (pluginConfig data plugin).contains name := by
    rw [JsonValue.contains, field?_child, ← pluginConfig_eq]
    rfl
  have hsize : (child (child (child data pluginsKey) plugin) configKey).size ≤ (pluginConfig data plugin).size := by
    rw [child, pluginConfig_eq]
    cases (child (child data pluginsKey) plugin).field? configKey with
    | none => exact Nat.le_refl _
    | some v => cases v <;> simp [JsonValue.isObject, Option.filter, JsonValue.size]
  have hobj : asObject (child (child (child data pluginsKey) plugin) configKey) =
      child (child (child data pluginsKey) plugin) configKey := if_pos isObject_child
  rw [pluginConfig_set, hobj]
  generalize child (child (child data pluginsKey) plugin) configKey = config at hfld hsize ⊢
  rw [← hfld] at hold h
  unfold putMemberBy
  split
  · exact hold.imp_right fun h => Nat.lt_of_le_of_lt hsize h
  · have hset : (config.setField key a).contains name = (decide (name = key) || config.contains name) := by
      rw [JsonValue.contains, JsonValue.field?_setField]
      split <;> simp_all [JsonValue.contains]
    have := JsonValue.size_setField_le (v := config) (k := key) (w := a)
    rcases h with rfl | hcon | hlt
    · simp [hset]
    · simp [hset, hcon]
    · exact .inr (by omega)

/-- What an operation writes leaves the decision of every operation it does not disturb. -/
theorem plan_write (hl : u.KeepsPlugins) (hquiet : u.disturbs data v = false) (hu : u.plan textSize data = some a)
    (hv : v.plan textSize data = some b) : v.plan textSize (u.write cmp a data) = some b := by
  have hapart : Apart u.writtenPath v.readPath → v.plan textSize (u.write cmp a data) = some b := by
    intro h
    rw [← hv]
    refine plan_congr ?_
    cases v <;> exact get?_write hl h
  cases u with
  | set plugin key value =>
    cases v with
    | set other name w =>
      by_cases hsame : plugin = other
      · subst hsame
        simp only [disturbs, decide_true, Bool.true_and, Bool.not_eq_false', Bool.or_eq_true, decide_eq_true_eq] at hquiet
        simp only [plan, write, getD_setBy, Bool.and_eq_true, decide_eq_true_eq] at hv ⊢
        split at hv
        · next hlim =>
          obtain ⟨hres, hlen, hroom, hval⟩ := validateLimits_iff.1 hlim.2
          rw [← hv]
          refine if_pos ⟨hlim.1, validateLimits_iff.2 ⟨hres, hlen, ?_, hval⟩⟩
          split
          · exact room_set hroom (or_assoc.1 hquiet)
          · exact hroom
        · cases hv
      · exact hapart (apart_cons.2 (apart_of_ne hsame))
    | _ => exact hapart (by simpa [disturbs] using hquiet)
  | _ => exact hapart (by simpa [disturbs] using hquiet)

variable {ι : Type*} [DecidableEq ι] [Fintype ι]

/-- What an operation is about: its plugin, or the list of enabled plugins. -/
def subject : Update → Bytes
  | .set plugin _ _ => plugin
  | .del plugin _ => plugin
  | .setPluginEnabled _ _ _ => enabledPluginsKey

theorem disturbs_of_ne (h : u.subject ≠ v.subject) : u.disturbs data v = false := by
  have hapart : Apart u.writtenPath v.readPath := by
    cases u <;> cases v <;> exact apart_cons.2 (apart_of_ne h)
  cases u with
  | set plugin key value =>
    cases v with
    | set other name w => simp [disturbs, show plugin ≠ other from h]
    | _ => simp [disturbs, hapart]
  | _ => simp [disturbs, hapart]

/-! ### All operations -/

section Runs

variable {ι : Type*} [DecidableEq ι] [Fintype ι] (cmp : Comparison) (textSize : JsonValue → Nat) (ops : ι → Update)
  (hl : ∀ i, (ops i).KeepsPlugins) (data : JsonValue) (t : ReadWrite.State ι JsonValue JsonValue)
  (hdone : ∀ i, t.phase i = .done)

include hl hdone

/-- In every run in which no `CONFIG.set` disturbs an operation that has read and is still to write, the configuration at the
end is what the operations leave one after another. -/
theorem updates_serializable
    (h : Transition.ReachesBy (step fun i => (ops i).toReadWrite cmp textSize)
      (undisturbed fun j i data => (ops j).disturbs data (ops i)) (initial data) t) :
    ∃ order : List ι, order.Nodup ∧ (∀ i, i ∈ order) ∧
      t.store = serial (fun i => (ops i).toReadWrite cmp textSize) data order := by
  obtain ⟨order, hnod, hmem, hstr⟩ := serial_of_reaches (fun _ hq hu hv => plan_write (hl _) hq hu hv) h
  exact ⟨order, hnod, fun i => (hmem i).2 (hdone i), hstr⟩

/-- Operations for different plugins, and one that changes the list of enabled plugins, take effect one after another in every
run. -/
theorem distinct_serializable (hdist : Function.Injective fun i => (ops i).subject)
    (h : Transition.Reaches (step fun i => (ops i).toReadWrite cmp textSize) (initial data) t) :
    ∃ order : List ι, order.Nodup ∧ (∀ i, i ∈ order) ∧
      t.store = serial (fun i => (ops i).toReadWrite cmp textSize) data order := by
  have hquiet : Framed (fun i => (ops i).toReadWrite cmp textSize) fun _ _ _ => false := by
    intro i j s a b hne _ hu hv
    exact plan_write (hl j) (disturbs_of_ne fun h => hne (hdist h).symm) hu hv
  obtain ⟨order, hnod, hmem, hstr⟩ := serial_of_reaches hquiet (h.reachesBy fun _ e => by cases e <;> simp [undisturbed])
  exact ⟨order, hnod, fun i => (hmem i).2 (hdone i), hstr⟩

end Runs

def delAndSet : Bool → Update
  | false => .del (utf8 "p") (utf8 "a")
  | true => .set (utf8 "p") (utf8 "b") (.bool true)

def pluginData (members : List Bytes) : JsonValue :=
  .obj [(pluginsKey, .obj [(utf8 "p", .obj [(configKey, .obj (members.map fun k => (k, .bool true)))])])]

def delAndSetDone (data : JsonValue) : ReadWrite.State Bool JsonValue JsonValue := ⟨data, fun _ => .done⟩

theorem updates_serializable_delAndSet :
    Transition.run (step fun i => (delAndSet i).toReadWrite .same fun _ => 4) (initial (pluginData [utf8 "a"]))
        [.read false, .write false, .read true, .write true] = some (delAndSetDone (pluginData [utf8 "b"])) ∧
      ∃ order : List Bool, order.Nodup ∧ (∀ i, i ∈ order) ∧
        (delAndSetDone (pluginData [utf8 "b"])).store =
          serial (fun i => (delAndSet i).toReadWrite .same fun _ => 4) (pluginData [utf8 "a"]) order := by
  have hrun : Transition.run (step fun i => (delAndSet i).toReadWrite .same fun _ => 4) (initial (pluginData [utf8 "a"]))
      [.read false, .write false, .read true, .write true] = some (delAndSetDone (pluginData [utf8 "b"])) := by
    refine congrArg some (congrArg₂ ReadWrite.State.mk (by decide +kernel) ?_)
    funext i
    cases i <;> rfl
  refine ⟨hrun, updates_serializable .same (fun _ => 4) delAndSet ?_ _ _ (fun _ => rfl) ⟨_, hrun, by decide +kernel⟩⟩
  intro i
  cases i <;> trivial

def delAndEnable : Bool → Update
  | false => .del (utf8 "p") (utf8 "a")
  | true => .setPluginEnabled (utf8 "p") true id

def enabledData : JsonValue :=
  .obj [(pluginsKey, .obj [(enabledPluginsKey, .arr [.str (utf8 "p")]), (utf8 "p", .obj [(configKey, .obj [])])])]

theorem distinct_serializable_delAndEnable :
    Transition.run (step fun i => (delAndEnable i).toReadWrite .same fun _ => 4) (initial (pluginData [utf8 "a"]))
        [.read false, .read true, .write true, .write false] = some (delAndSetDone enabledData) ∧
      ∃ order : List Bool, order.Nodup ∧ (∀ i, i ∈ order) ∧
        (delAndSetDone enabledData).store =
          serial (fun i => (delAndEnable i).toReadWrite .same fun _ => 4) (pluginData [utf8 "a"]) order := by
  have hrun : Transition.run (step fun i => (delAndEnable i).toReadWrite .same fun _ => 4) (initial (pluginData [utf8 "a"]))
      [.read false, .read true, .write true, .write false] = some (delAndSetDone enabledData) := by
    refine congrArg some (congrArg₂ ReadWrite.State.mk (by decide +kernel) ?_)
    funext i
    cases i <;> rfl
  refine ⟨hrun, distinct_serializable .same (fun _ => 4) delAndEnable ?_ _ _ (fun _ => rfl) (by decide) ⟨_, hrun⟩⟩
  intro i
  cases i
  · trivial
  · exact fun _ => rfl

theorem delAndSet_loses_update :
    Transition.run (step fun i => (delAndSet i).toReadWrite .same fun _ => 4) (initial (pluginData [utf8 "a"]))
        [.read false, .read true, .write true, .write false] = some (delAndSetDone (pluginData [])) ∧
      ¬ ∃ order : List Bool, order.Nodup ∧ (∀ i, i ∈ order) ∧
        (delAndSetDone (pluginData [])).store =
          serial (fun i => (delAndSet i).toReadWrite .same fun _ => 4) (pluginData [utf8 "a"]) order := by
  constructor
  · refine congrArg some (congrArg₂ ReadWrite.State.mk ?_ ?_)
    · decide +kernel
    · funext i
      cases i <;> rfl
  · rintro ⟨order, hnod, hmem, hstr⟩
    have hperm : order.Perm [false, true] :=
      (List.perm_ext_iff_of_nodup hnod (by decide)).2 (by intro i; cases i <;> simp [hmem])
    obtain ⟨i, j, rfl⟩ := List.length_eq_two.1 hperm.length_eq
    cases i <;> cases j
    · simp at hnod
    · exact absurd hstr (by decide +kernel)
    · exact absurd hstr (by decide +kernel)
    · simp at hnod

end Update

end CloudeLoader.Config
