import CloudeLoader.Config.Laws
import CloudeLoader.Config.PluginConfig

/-!
# Limits on the configuration of a plugin (`plugin_config.cc`)

`validate_limits` looks at the stored object of the plugin before `set` writes to it, by a path that could lead through
anything and could create anything.
-/

namespace CloudeLoader.Config

open JsonValue ConfigManager

open Engine (Bytes utf8)

/-! ### The calls -/

def getConfig (data : JsonValue) (plugin key : Bytes) : Except Bytes JsonValue :=
  if isReservedName plugin then .error (utf8 "reserved plugin name: " ++ plugin)
  else if key = [] then .error (utf8 "missing key")
  else .ok (get data [pluginsKey, plugin, configKey] key .null)

def getAllConfig (data : JsonValue) (plugin : Bytes) : Except Bytes JsonValue :=
  if isReservedName plugin then .error (utf8 "reserved plugin name: " ++ plugin) else .ok (pluginConfig data plugin)

inductive PluginCall
  | set (plugin key : Bytes) (value : JsonValue)
  | del (plugin key : Bytes)
  | deleteAll (plugin : Bytes)
  | get (plugin key : Bytes)
  | getAll (plugin : Bytes)

def PluginCall.plugin : PluginCall → Bytes
  | .set plugin _ _ => plugin
  | .del plugin _ => plugin
  | .deleteAll plugin => plugin
  | .get plugin _ => plugin
  | .getAll plugin => plugin

inductive PluginAnswer
  | outcome (o : Outcome)
  | value (v : Except Bytes JsonValue)

def answerCall (cmp : Comparison) (textSize : JsonValue → Nat) (m : ConfigManager) (io : SaveIo) : PluginCall → ConfigManager × PluginAnswer
  | .set plugin key value => (m.setConfig cmp textSize io plugin key value).map id .outcome
  | .del plugin key => (m.delConfig cmp io plugin key).map id .outcome
  | .deleteAll plugin => (m.deleteAllConfig cmp io plugin).map id .outcome
  | .get plugin key => (m, .value (getConfig m.data plugin key))
  | .getAll plugin => (m, .value (getAllConfig m.data plugin))

def afterCalls (cmp : Comparison) (textSize : JsonValue → Nat) (m : ConfigManager) (calls : List (SaveIo × PluginCall)) : ConfigManager :=
  calls.foldl (fun m c => (answerCall cmp textSize m c.1 c.2).1) m

/-! ### The limits -/

structure WithinLimits (textSize : JsonValue → Nat) (config : JsonValue) : Prop where
  isObject : config.isObject = true
  isSorted : config.IsSorted
  size : config.size ≤ 256
  members : ∀ k v, config.field? k = some v → k.length ≤ 512 ∧ textSize v ≤ 256 * 1024

/-- `plugins` is an object; each plugin has an object in it, whose `config`, if there is one, is within the limits. -/
structure Limited (textSize : JsonValue → Nat) (data : JsonValue) : Prop where
  plugins : ∃ plugins, data.get? [pluginsKey] = some plugins ∧ plugins.isObject = true
  entry : ∀ p e, isReservedName p = false → data.get? [pluginsKey, p] = some e → e.isObject = true
  config : ∀ p c, isReservedName p = false → data.get? [pluginsKey, p, configKey] = some c → WithinLimits textSize c

/-- Nothing but `plugins.<plugin>.config` has changed: every path that goes another way leads to what it led to before. -/
structure SameOutside (plugin : Bytes) (data data' : JsonValue) : Prop where
  path : ∀ q, Apart [pluginsKey, plugin, configKey] q → data'.get? q = data.get? q
  other : ∀ p, p ≠ plugin → data'.get? [pluginsKey, p] = data.get? [pluginsKey, p]
  enabledPlugins : data'.get? [pluginsKey, utf8 "enabledPlugins"] = data.get? [pluginsKey, utf8 "enabledPlugins"]

section Limits

variable {cmp : Comparison} {textSize : JsonValue → Nat} {data data' config value : JsonValue} {plugin key : Bytes} {m : ConfigManager} {io : SaveIo}

theorem SameOutside.refl (plugin : Bytes) (data : JsonValue) : SameOutside plugin data data :=
  ⟨fun _ _ => rfl, fun _ _ => rfl, rfl⟩

theorem sameOutside_of_path (hplg : isReservedName plugin = false)
    (h : ∀ q, Apart [pluginsKey, plugin, configKey] q → data'.get? q = data.get? q) : SameOutside plugin data data' := by
  have hoth : ∀ p, p ≠ plugin → data'.get? [pluginsKey, p] = data.get? [pluginsKey, p] := by
    intro p hp
    exact h _ (apart_cons.2 (apart_of_ne hp.symm))
  refine ⟨h, hoth, hoth _ ?_⟩
  rintro rfl
  exact absurd hplg (by decide)

theorem withinLimits_empty : WithinLimits textSize (.obj []) :=
  ⟨rfl, List.Pairwise.nil, Nat.zero_le _, fun _ _ h => by cases h⟩

theorem WithinLimits.putMemberBy (h : WithinLimits textSize config) (hroom : config.contains key = true ∨ config.size < 256)
    (hkey : key.length ≤ 512) (hval : textSize value ≤ 256 * 1024) : 
    WithinLimits textSize (putMemberBy cmp.equal config key value) := by
  unfold Config.putMemberBy
  split
  · exact h
  · refine ⟨?_, isSorted_setField h.isSorted, ?_, fun k v hk => ?_⟩
    · cases config <;> rfl
    · rw [size_setField h.isSorted]
      have := h.size
      rcases hroom with hroom | hroom
      · rw [if_pos hroom]
        omega
      · split <;> omega
    · rw [field?_setField] at hk
      split at hk
      · next heq =>
        cases hk
        exact ⟨heq ▸ hkey, hval⟩
      · exact h.members k v hk

theorem WithinLimits.eraseField (h : WithinLimits textSize config) (key : Bytes) :
    WithinLimits textSize (config.eraseField key) := by
  refine ⟨isObject_eraseField h.isObject, isSorted_eraseField h.isSorted,
    Nat.le_trans (size_eraseField_le key) h.size, fun k v hk => ?_⟩
  rw [field?_eraseField] at hk
  split at hk
  · cases hk
  · exact h.members k v hk

/-- A call for a plugin leaves another object in the place of its `config`, and nothing else. -/
structure Replaces (plugin : Bytes) (data data' config : JsonValue) : Prop where
  path : ∀ q, Apart [pluginsKey, plugin, configKey] q → data'.get? q = data.get? q
  plugins : ∃ plugins, data'.get? [pluginsKey] = some plugins ∧ plugins.isObject = true
  entry : ∃ e, data'.get? [pluginsKey, plugin] = some e ∧ e.isObject = true
  config : data'.get? [pluginsKey, plugin, configKey] = some config

theorem Replaces.limited (hplg : isReservedName plugin = false) (h : Limited textSize data)
    (hwrt : Replaces plugin data data' config) (hcon : WithinLimits textSize config) :
    Limited textSize data' ∧ SameOutside plugin data data' := by
  have hsame := sameOutside_of_path hplg hwrt.path
  refine ⟨⟨hwrt.plugins, fun p e hp he => ?_, fun p c hp hc => ?_⟩, hsame⟩
  · by_cases hpp : p = plugin
    · subst hpp
      obtain ⟨e', he', hobj⟩ := hwrt.entry
      cases he.symm.trans he'
      exact hobj
    · rw [hsame.other p hpp] at he
      exact h.entry p e hp he
  · by_cases hpp : p = plugin
    · subst hpp
      cases hc.symm.trans hwrt.config
      exact hcon
    · rw [hwrt.path _ (apart_cons.2 (apart_of_ne (Ne.symm hpp)))] at hc
      exact h.config p c hp hc

theorem replaces_set :
    Replaces plugin data (assignBy cmp.equal data [pluginsKey, plugin, configKey] key value)
      (putMemberBy cmp.equal (child (child (child data pluginsKey) plugin) configKey) key value) := by
  have hobj : asObject (child (child (child data pluginsKey) plugin) configKey) =
      child (child (child data pluginsKey) plugin) configKey := if_pos isObject_child
  refine ⟨fun q hq => get?_assignBy_of_apart (apart_concat hq), exists_object_assignBy [pluginsKey] [plugin, configKey],
    exists_object_assignBy [pluginsKey, plugin] [configKey], ?_⟩
  rw [get?_assignBy_cons, get?_assignBy_cons, get?_assignBy_cons, get?_nil, assignBy, hobj]

variable (cmp data plugin) in
/-- If the old object is taken for equal to the new one, it stays. -/
theorem replaces_write (hcon : config.isObject = true) :
    ∃ c, (c = config ∨ data.get? [pluginsKey, plugin, configKey] = some c) ∧
      Replaces plugin data (assignBy cmp.equal data [pluginsKey, plugin] configKey config) c := by
  have hself : (assignBy cmp.equal data [pluginsKey, plugin] configKey config).get? [pluginsKey, plugin, configKey] = _ :=
    get?_assignBy_self cmp.tellsNull
  have hne : config ≠ .null := by
    rintro rfl
    cases hcon
  have hreplaces : ∀ c, (assignBy cmp.equal data [pluginsKey, plugin] configKey config).get? [pluginsKey, plugin, configKey] =
      some c → Replaces plugin data (assignBy cmp.equal data [pluginsKey, plugin] configKey config) c := fun c hc =>
    ⟨fun q hq => get?_assignBy_of_apart hq, exists_object_assignBy [pluginsKey] [plugin],
      exists_object_assignBy [pluginsKey, plugin] [], hc⟩
  cases hold : data.get? [pluginsKey, plugin, configKey] with
  | none => exact ⟨config, .inl rfl, hreplaces config (by simpa [hold, hne] using hself)⟩
  | some old =>
    cases heq : cmp.equal old config with
    | true => exact ⟨old, .inr rfl, hreplaces old (by simpa [hold, heq] using hself)⟩
    | false => exact ⟨config, .inl rfl, hreplaces config (by simpa [hold, heq] using hself)⟩

theorem limited_write (hplg : isReservedName plugin = false) (h : Limited textSize data) (hcon : WithinLimits textSize config) :
    Limited textSize (assignBy cmp.equal data [pluginsKey, plugin] configKey config) ∧
      SameOutside plugin data (assignBy cmp.equal data [pluginsKey, plugin] configKey config) := by
  obtain ⟨c, rfl | hold, hwrt⟩ := replaces_write cmp data plugin hcon.isObject
  · exact hwrt.limited hplg h hcon
  · exact hwrt.limited hplg h (h.config plugin c hplg hold)

theorem Limited.pluginConfig (h : Limited textSize data) (hplg : isReservedName plugin = false) :
    WithinLimits textSize (pluginConfig data plugin) := by
  unfold Config.pluginConfig
  rw [get_eq]
  show WithinLimits textSize ((data.get? [pluginsKey, plugin, configKey]).getD _)
  cases hc : data.get? [pluginsKey, plugin, configKey] with
  | none => exact withinLimits_empty
  | some c => exact h.config plugin c hplg hc

theorem child_eq_pluginConfig (h : (pluginConfig data plugin).isObject = true) :
    child (child (child data pluginsKey) plugin) configKey = pluginConfig data plugin := by
  rw [pluginConfig_eq] at h ⊢
  rw [child]
  cases hc : (child (child data pluginsKey) plugin).field? configKey with
  | none => rfl
  | some c =>
    rw [hc, Option.getD_some] at h
    rw [Option.filter_some, if_pos h]

def KeepsLimits (textSize : JsonValue → Nat) (plugin : Bytes) (data data' : JsonValue) : Prop :=
  Limited textSize data' ∧ SameOutside plugin data data'

theorem setConfig_keepsLimits (h : Limited textSize m.data) :
    KeepsLimits textSize plugin m.data (m.setConfig cmp textSize io plugin key value).1.data := by
  have hdata : (m.setConfig cmp textSize io plugin key value).1.data = _ := withData_setConfig.1
  rw [hdata]
  split
  · next hacc =>
    simp only [accepts, Bool.and_eq_true, decide_eq_true_eq] at hacc
    obtain ⟨hplg, hkey, hroom, -, hval⟩ := validateLimits_iff.1 hacc.1.2
    have hcon := h.pluginConfig hplg
    refine replaces_set.limited hplg h ?_
    rw [child_eq_pluginConfig hcon.isObject]
    exact hcon.putMemberBy hroom hkey hval
  · exact ⟨h, .refl _ _⟩

theorem delConfig_keepsLimits (h : Limited textSize m.data) :
    KeepsLimits textSize plugin m.data (m.delConfig cmp io plugin key).1.data := by
  have hdata : (m.delConfig cmp io plugin key).1.data = _ := withData_delConfig.1
  rw [hdata]
  split
  · next hrem =>
    simp only [removes, Bool.and_eq_true, Bool.not_eq_true'] at hrem
    have hplg := hrem.1.1.1
    exact limited_write hplg h ((h.pluginConfig hplg).eraseField key)
  · exact ⟨h, .refl _ _⟩

theorem deleteAllConfig_keepsLimits (h : Limited textSize m.data) :
    KeepsLimits textSize plugin m.data (m.deleteAllConfig cmp io plugin).1.data := by
  unfold deleteAllConfig
  split
  · exact ⟨h, .refl _ _⟩
  · split
    · exact ⟨h, .refl _ _⟩
    · next hplg =>
      have hdata : (m.setAndSave cmp io [pluginsKey, plugin] configKey (.obj [])).1.data = _ := withData_setAndSave.1
      rw [hdata]
      split
      · exact limited_write (by simpa using hplg) h withinLimits_empty
      · exact ⟨h, .refl _ _⟩

theorem answerCall_keepsLimits (h : Limited textSize m.data) (io : SaveIo) (c : PluginCall) :
    KeepsLimits textSize c.plugin m.data (answerCall cmp textSize m io c).1.data := by
  cases c with
  | set plugin key value => exact setConfig_keepsLimits h
  | del plugin key => exact delConfig_keepsLimits h
  | deleteAll plugin => exact deleteAllConfig_keepsLimits h
  | get plugin key => exact ⟨h, .refl _ _⟩
  | getAll plugin => exact ⟨h, .refl _ _⟩

theorem afterCalls_limited (h : Limited textSize m.data) (calls : List (SaveIo × PluginCall)) :
    Limited textSize (afterCalls cmp textSize m calls).data := by
  induction calls generalizing m with
  | nil => exact h
  | cons c calls ih => exact ih (answerCall_keepsLimits h c.1 c.2).1

/-- From a configuration within the limits, the limits hold after any series of calls, and the next call changes nothing but the
`config` of its own plugin. -/
theorem limits_and_frame (cmp : Comparison) (textSize : JsonValue → Nat) (m : ConfigManager) (h : Limited textSize m.data)
    (calls : List (SaveIo × PluginCall)) :
    Limited textSize (afterCalls cmp textSize m calls).data ∧
      ∀ io c, SameOutside c.plugin (afterCalls cmp textSize m calls).data
        (answerCall cmp textSize (afterCalls cmp textSize m calls) io c).1.data := by
  have hlim : Limited textSize (afterCalls cmp textSize m calls).data := afterCalls_limited h calls
  exact ⟨hlim, fun io c => (answerCall_keepsLimits hlim io c).2⟩

theorem limits_and_frame_set :
    Limited (fun _ => 4) (afterCalls .same (fun _ => 4) ⟨.obj [(pluginsKey, .obj [])], .obj [], false, none⟩
      [(⟨true, true, true⟩, .set (utf8 "p") (utf8 "k") (.bool true))]).data := by
  refine (limits_and_frame .same (fun _ => 4) ⟨.obj [(pluginsKey, .obj [])], .obj [], false, none⟩ ⟨⟨.obj [], ?_, rfl⟩, ?_, ?_⟩ _).1
  · rfl
  · intro p e _ he
    cases he
  · intro p c _ hc
    cases hc

end Limits

end CloudeLoader.Config
