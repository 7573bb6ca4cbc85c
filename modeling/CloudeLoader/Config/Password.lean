import CloudeLoader.Config.Updates

/-!
# The stored proxy password (`entry_point.cc`)

The configuration holds the password of the proxy, and three calls of the frontend are answered with the configuration.
`Core_GetBackendConfig` puts a sentinel in the place of the password.
-/

namespace CloudeLoader.Config

open JsonValue ConfigManager Option

open Engine (Bytes utf8)

def networkKey : Bytes := utf8 "network"
def proxyPasswordKey : Bytes := utf8 "proxyPassword"
def storedSentinel : Bytes := utf8 "__SET__"

structure BackendEnv where
  accentColor : Bytes → Option JsonValue
  activeTheme : Bytes → JsonValue
  pluginNames : List Bytes
  startEntries : JsonValue
  encrypt : Bytes → Bytes
  listeners : JsonValue → JsonValue
  io : SaveIo

inductive BackendRequest
  | getStartConfig
  | getBackendConfig
  /-- `incoming` is the argument `config`, parsed, and `skipPropagation` the other one; `none` if reading it throws. -/
  | setBackendConfig (incoming : Option JsonValue) (skipPropagation : Option Bool)

inductive BackendResponse
  | value (v : JsonValue)
  | threw

def isEnabled (data : JsonValue) (plugin : Bytes) : Bool :=
  (stringsOf (get data [pluginsKey] enabledPluginsKey (.arr []))).contains plugin

def startParts (env : BackendEnv) (data : JsonValue) : Option JsonValue := do
  let color ← (get data [utf8 "general"] (utf8 "accentColor") .null).getString.toOption
  let accent ← env.accentColor color
  let active ← (get data [utf8 "themes"] (utf8 "activeTheme") .null).getString.toOption
  return overlay env.startEntries [(utf8 "accent_color", accent),
    (utf8 "conditions", get data [utf8 "themes"] (utf8 "conditions") (.obj [])), (utf8 "active_theme", env.activeTheme active),
    (utf8 "enabledPlugins", .arr ((env.pluginNames.filter (isEnabled data)).map .str))]

def coreGetStartConfig (env : BackendEnv) (m : ConfigManager) : BackendResponse :=
  match startParts env m.data with
  | none => .threw
  | some parts => .value (parts.setField (utf8 "settings") m.getAll)

def proxyPassword (config : JsonValue) : Option JsonValue := (config.field? networkKey).bind (·.field? proxyPasswordKey)

def setProxyPassword (config value : JsonValue) : JsonValue :=
  config.setField networkKey (((config.field? networkKey).getD .null).setField proxyPasswordKey value)

theorem field?_setProxyPassword (config value : JsonValue) (k : Bytes) :
    (setProxyPassword config value).field? k =
      if k = networkKey then some (((config.field? networkKey).getD .null).setField proxyPasswordKey value)
      else config.field? k :=
  field?_setField ..

theorem proxyPassword_setProxyPassword (config value : JsonValue) :
    proxyPassword (setProxyPassword config value) = some value := by
  rw [proxyPassword, field?_setProxyPassword, if_pos rfl, bind_some, field?_setField, if_pos rfl]

def coreGetBackendConfig (m : ConfigManager) : BackendResponse :=
  let cfg := m.getAll
  match proxyPassword cfg with
  | some (.str stored) => .value (setProxyPassword cfg (.str (if stored = [] then [] else storedSentinel)))
  | _ => .value cfg

def newConfig (env : BackendEnv) (m : ConfigManager) (incoming : JsonValue) : Option JsonValue :=
  match proxyPassword incoming with
  | none => some incoming
  | some (.str pw) =>
    if pw = storedSentinel then some (setProxyPassword incoming (get m.data [networkKey] proxyPasswordKey (.str [])))
    else if pw = [] then some incoming
    else if env.encrypt pw = [] then
      some (incoming.setField networkKey (((incoming.field? networkKey).getD .null).eraseField proxyPasswordKey))
    else some (setProxyPassword incoming (.str (env.encrypt pw)))
  | some _ => none

def coreSetBackendConfig (env : BackendEnv) (m : ConfigManager) (incoming : Option JsonValue) (skipPropagation : Option Bool) :
    BackendResponse :=
  match incoming.bind (newConfig env m), skipPropagation with
  | some config, some skip => .value (m.setAll env.listeners env.io config skip).2
  | _, _ => .threw

def respond (env : BackendEnv) (m : ConfigManager) : BackendRequest → BackendResponse
  | .getStartConfig => coreGetStartConfig env m
  | .getBackendConfig => coreGetBackendConfig m
  | .setBackendConfig incoming skipPropagation => coreSetBackendConfig env m incoming skipPropagation

/-! ### Configurations that differ in the password -/

/-- The two configurations have different passwords, and are the same otherwise. -/
structure DifferInPassword (m₁ m₂ : ConfigManager) (p₁ p₂ : Bytes) : Prop where
  defaults : m₁.defaults = m₂.defaults
  saveDisabled : m₁.saveDisabled = m₂.saveDisabled
  sortedDefaults : m₁.defaults.IsSorted
  sorted₁ : m₁.data.IsSorted
  sorted₂ : m₂.data.IsSorted
  others : ∀ k, k ≠ networkKey → m₁.data.field? k = m₂.data.field? k
  network : ∃ n₁ n₂, m₁.data.field? networkKey = some n₁ ∧ m₂.data.field? networkKey = some n₂ ∧ n₁.IsSorted ∧ n₂.IsSorted ∧
    n₁.field? proxyPasswordKey = some (.str p₁) ∧ n₂.field? proxyPasswordKey = some (.str p₂) ∧
    ∀ k, k ≠ proxyPasswordKey → n₁.field? k = n₂.field? k
  nonempty₁ : p₁ ≠ []
  nonempty₂ : p₂ ≠ []
  different : p₁ ≠ p₂

def BackendEnv.KeepsNetwork (env : BackendEnv) : Prop :=
  ∀ config, (env.listeners config).field? networkKey = config.field? networkKey

def hidesPassword (env : BackendEnv) (m₁ m₂ : ConfigManager) : BackendRequest → Prop
  | .getStartConfig => startParts env m₁.data = none
  | .getBackendConfig => True
  | .setBackendConfig incoming skipPropagation =>
    ∀ config skip, incoming = some config → skipPropagation = some skip → proxyPassword config = some (.str storedSentinel) →
      ∀ m ∈ [m₁, m₂], m.setAllThrows env.listeners env.io
        (setProxyPassword config (get m.data [networkKey] proxyPasswordKey (.str []))) skip = true

namespace DifferInPassword

variable {env : BackendEnv} {m₁ m₂ : ConfigManager} {p₁ p₂ : Bytes}

section

variable (h : DifferInPassword m₁ m₂ p₁ p₂)

include h

theorem symm : DifferInPassword m₂ m₁ p₂ p₁ where
  defaults := h.defaults.symm
  saveDisabled := h.saveDisabled.symm
  sortedDefaults := h.defaults ▸ h.sortedDefaults
  sorted₁ := h.sorted₂
  sorted₂ := h.sorted₁
  others k hk := (h.others k hk).symm
  network := by
    obtain ⟨n₁, n₂, h₁, h₂, hs₁, hs₂, hp₁, hp₂, hn⟩ := h.network
    exact ⟨n₂, n₁, h₂, h₁, hs₂, hs₁, hp₂, hp₁, fun k hk => (hn k hk).symm⟩
  nonempty₁ := h.nonempty₂
  nonempty₂ := h.nonempty₁
  different := h.different.symm

theorem get_eq {k} (hk : k ≠ networkKey) (rest : List Bytes) (last : Bytes)
    (default : JsonValue) : get m₁.data (k :: rest) last default = get m₂.data (k :: rest) last default :=
  get_congr (h.others k hk)

theorem startParts_eq : startParts env m₁.data = startParts env m₂.data := by
  have hgen : utf8 "general" ≠ networkKey := by decide
  have hthm : utf8 "themes" ≠ networkKey := by decide
  have hplg : pluginsKey ≠ networkKey := by decide
  have henb : isEnabled m₁.data = isEnabled m₂.data := by
    funext plugin
    simp only [isEnabled, h.get_eq hplg]
  simp only [startParts, h.get_eq hgen, h.get_eq hthm, henb]

theorem isSorted_getAll : m₁.getAll.IsSorted :=
  isSorted_overlay h.sortedDefaults _

theorem proxyPassword_getAll : proxyPassword m₁.getAll = some (.str p₁) := by
  obtain ⟨n₁, n₂, hn, -, -, -, hp, -, -⟩ := h.network
  rw [proxyPassword, field?_getAll h.sorted₁, hn]
  exact hp

theorem setProxyPassword_eq (value : JsonValue) :
    setProxyPassword m₁.getAll value = setProxyPassword m₂.getAll value := by
  obtain ⟨n₁, n₂, h₁, h₂, hs₁, hs₂, -, -, hn⟩ := h.network
  have hnet : n₁.setField proxyPasswordKey value = n₂.setField proxyPasswordKey value := by
    refine (isSorted_setField hs₁).ext (isSorted_setField hs₂) fun k => ?_
    rw [field?_setField, field?_setField]
    split
    · rfl
    · next hk => exact hn k hk
  refine (isSorted_setField h.isSorted_getAll).ext (isSorted_setField h.symm.isSorted_getAll) fun k => ?_
  show (setProxyPassword m₁.getAll value).field? k = (setProxyPassword m₂.getAll value).field? k
  simp only [field?_setProxyPassword, field?_getAll h.sorted₁, field?_getAll h.sorted₂, h₁, h₂]
  split
  · exact congrArg some hnet
  · next hk => rw [h.others k hk, h.defaults]

theorem coreGetBackendConfig_eq : coreGetBackendConfig m₁ = coreGetBackendConfig m₂ := by
  unfold coreGetBackendConfig
  simp only [h.proxyPassword_getAll, h.symm.proxyPassword_getAll, if_neg h.nonempty₁, if_neg h.nonempty₂,
    h.setProxyPassword_eq]

theorem getAll_ne : m₁.getAll ≠ m₂.getAll := by
  intro heq
  have hpw := h.proxyPassword_getAll
  rw [heq, h.symm.proxyPassword_getAll] at hpw
  exact h.different (str.inj (some.inj hpw)).symm

theorem coreGetStartConfig_eq_iff :
    coreGetStartConfig env m₁ = coreGetStartConfig env m₂ ↔ startParts env m₁.data = none := by
  unfold coreGetStartConfig
  rw [← h.startParts_eq]
  cases startParts env m₁.data with
  | none => exact iff_of_true rfl rfl
  | some parts =>
    refine iff_of_false (fun heq => ?_) (by simp)
    have hset := congrArg (·.field? (utf8 "settings")) (BackendResponse.value.inj heq)
    simp only [field?_setField, if_true, some.injEq] at hset
    exact h.getAll_ne hset

theorem get_proxyPassword (default : JsonValue) :
    get m₁.data [networkKey] proxyPasswordKey default = .str p₁ := by
  obtain ⟨n₁, n₂, hn, -, -, -, hp, -, -⟩ := h.network
  rw [get, hn]
  exact congrArg (·.getD default) hp

theorem isObject_data : m₁.data.isObject = true := by
  obtain ⟨n₁, n₂, hn, -⟩ := h.network
  exact isObject_of_field? hn

theorem setAllThrows_eq (config : JsonValue) (skip : Bool) :
    m₁.setAllThrows env.listeners env.io config skip = m₂.setAllThrows env.listeners env.io config skip := by
  have hsave : ∀ data, (({ m₁ with data := data } : ConfigManager).saveToDisk env.io).isNone =
      (({ m₂ with data := data } : ConfigManager).saveToDisk env.io).isNone := by
    intro data
    simp only [saveToDisk, h.saveDisabled]
    split
    · rfl
    · split <;> rfl
  simp only [setAllThrows, h.isObject_data, h.symm.isObject_data, hsave]

end

theorem field?_afterListeners (henv : env.KeepsNetwork) (config : JsonValue) (skip : Bool) :
    (afterListeners env.listeners config skip).field? networkKey = config.field? networkKey := by
  unfold afterListeners
  split
  · rfl
  · exact henv config

theorem setAll_restored_eq_iff (h : DifferInPassword m₁ m₂ p₁ p₂) (henv : env.KeepsNetwork) (config : JsonValue) (skip : Bool) :
    (m₁.setAll env.listeners env.io (setProxyPassword config (.str p₁)) skip).2 =
        (m₂.setAll env.listeners env.io (setProxyPassword config (.str p₂)) skip).2 ↔
      m₁.setAllThrows env.listeners env.io (setProxyPassword config (.str p₁)) skip = true ∧
        m₂.setAllThrows env.listeners env.io (setProxyPassword config (.str p₂)) skip = true := by
  have hpw : ∀ p, proxyPassword (afterListeners env.listeners (setProxyPassword config (.str p)) skip) =
      some (.str p) := by
    intro p
    rw [proxyPassword, field?_afterListeners henv]
    exact proxyPassword_setProxyPassword config (.str p)
  have hemp : proxyPassword (.obj []) = none := rfl
  rw [setAll_response, setAll_response]
  cases ht₁ : m₁.setAllThrows env.listeners env.io (setProxyPassword config (.str p₁)) skip <;>
    cases ht₂ : m₂.setAllThrows env.listeners env.io (setProxyPassword config (.str p₂)) skip
  · refine iff_of_false (fun heq => ?_) (by simp)
    have := congrArg proxyPassword heq
    simp only [Bool.false_eq_true, if_false, hpw, some.injEq, str.injEq] at this
    exact h.different this
  · refine iff_of_false (fun heq => ?_) (by simp)
    have := congrArg proxyPassword heq
    simp only [Bool.false_eq_true, if_false, if_true, hpw, hemp] at this
    cases this
  · refine iff_of_false (fun heq => ?_) (by simp)
    have := congrArg proxyPassword heq
    simp only [Bool.false_eq_true, if_false, if_true, hpw, hemp] at this
    cases this
  · simp

theorem coreSetBackendConfig_eq_iff (h : DifferInPassword m₁ m₂ p₁ p₂) (henv : env.KeepsNetwork) (incoming : Option JsonValue)
    (skipPropagation : Option Bool) :
    coreSetBackendConfig env m₁ incoming skipPropagation = coreSetBackendConfig env m₂ incoming skipPropagation ↔
      hidesPassword env m₁ m₂ (.setBackendConfig incoming skipPropagation) := by
  unfold coreSetBackendConfig hidesPassword
  cases incoming with
  | none => exact iff_of_true rfl (by simp)
  | some config =>
    cases skipPropagation with
    | none =>
      refine iff_of_true ?_ (by simp)
      cases (some config).bind (newConfig env m₁) <;> cases (some config).bind (newConfig env m₂) <;> rfl
    | some skip =>
      by_cases hsen : proxyPassword config = some (.str storedSentinel)
      · have hget₁ := h.get_proxyPassword (.str [])
        have hget₂ := h.symm.get_proxyPassword (.str [])
        have hnew₁ : newConfig env m₁ config = some (setProxyPassword config (.str p₁)) := by
          simp only [newConfig, hsen, if_true, hget₁]
        have hnew₂ : newConfig env m₂ config = some (setProxyPassword config (.str p₂)) := by
          simp only [newConfig, hsen, if_true, hget₂]
        simp only [bind_some, hnew₁, hnew₂, BackendResponse.value.injEq]
        rw [h.setAll_restored_eq_iff henv config skip, ← hget₁, ← hget₂]
        constructor
        · rintro ⟨ht₁, ht₂⟩ c s hc hs - m hm
          cases hc
          cases hs
          rcases List.mem_pair.1 hm with rfl | rfl
          · exact ht₁
          · exact ht₂
        · intro hall
          exact ⟨hall config skip rfl rfl hsen m₁ (by simp), hall config skip rfl rfl hsen m₂ (by simp)⟩
      · have hnew : newConfig env m₁ config = newConfig env m₂ config := by
          unfold newConfig
          split
          · rfl
          · next pw hpw =>
            have hne : pw ≠ storedSentinel := by
              rintro rfl
              exact hsen hpw
            rw [if_neg hne, if_neg hne]
          · rfl
        refine iff_of_true ?_ ?_
        · simp only [bind_some, hnew]
          cases newConfig env m₂ config with
          | none => rfl
          | some new => simp only [setAll_response, h.setAllThrows_eq]
        · intro c s hc _ hs
          cases hc
          exact absurd hs hsen

end DifferInPassword

/-- Two configurations that differ only in the password get the same answer, if and only if it is not read from the password:
`Core_GetBackendConfig`; `Core_SetBackendConfig` without the sentinel, or when it fails; `Core_GetStartConfig` when it fails. -/
theorem responses_identical_iff (env : BackendEnv) (henv : env.KeepsNetwork) (m₁ m₂ : ConfigManager) (p₁ p₂ : Bytes)
    (h : DifferInPassword m₁ m₂ p₁ p₂) (request : BackendRequest) :
    respond env m₁ request = respond env m₂ request ↔ hidesPassword env m₁ m₂ request := by
  cases request with
  | getStartConfig => exact h.coreGetStartConfig_eq_iff
  | getBackendConfig => exact iff_of_true h.coreGetBackendConfig_eq trivial
  | setBackendConfig incoming skipPropagation => exact h.coreSetBackendConfig_eq_iff henv incoming skipPropagation

def withProxyPassword (p : Bytes) : ConfigManager where
  data := .obj [(utf8 "general", .obj [(utf8 "accentColor", .str (utf8 "DEFAULT_ACCENT_COLOR"))]),
    (networkKey, .obj [(proxyPasswordKey, .str p)]), (utf8 "themes", .obj [(utf8 "activeTheme", .str (utf8 "default"))])]
  defaults := .obj []
  saveDisabled := false
  file := none

def plainEnv : BackendEnv where
  accentColor := fun color => some (.str color)
  activeTheme := fun theme => .str theme
  pluginNames := []
  startEntries := .obj []
  encrypt := id
  listeners := id
  io := ⟨true, true, true⟩

theorem isSorted_withProxyPassword (p : Bytes) : (withProxyPassword p).data.IsSorted := by
  show List.Pairwise _ _
  simp only [List.pairwise_cons, List.mem_cons, List.not_mem_nil, or_false, forall_eq_or_imp, forall_eq, and_true,
    List.Pairwise.nil, false_imp_iff, implies_true]
  decide

theorem differInPassword_withProxyPassword {p₁ p₂} (h₁ : p₁ ≠ []) (h₂ : p₂ ≠ []) (h : p₁ ≠ p₂) :
    DifferInPassword (withProxyPassword p₁) (withProxyPassword p₂) p₁ p₂ where
  defaults := rfl
  saveDisabled := rfl
  sortedDefaults := List.Pairwise.nil
  sorted₁ := isSorted_withProxyPassword p₁
  sorted₂ := isSorted_withProxyPassword p₂
  others := by
    intro k hk
    simp only [withProxyPassword, field?, lookup_cons_ite, if_neg hk]
  network := by
    refine ⟨.obj [(proxyPasswordKey, .str p₁)], .obj [(proxyPasswordKey, .str p₂)], rfl, rfl, List.pairwise_singleton _ _,
      List.pairwise_singleton _ _, rfl, rfl, ?_⟩
    intro k hk
    simp only [field?, lookup_cons_ite, if_neg hk]
  nonempty₁ := h₁
  nonempty₂ := h₂
  different := h

theorem responses_identical_getBackendConfig :
    respond plainEnv (withProxyPassword (utf8 "a")) .getBackendConfig =
      respond plainEnv (withProxyPassword (utf8 "b")) .getBackendConfig :=
  (responses_identical_iff plainEnv (fun _ => rfl) _ _ _ _
    (differInPassword_withProxyPassword (by decide) (by decide) (by decide)) .getBackendConfig).2 trivial

theorem getStartConfig_shows_password :
    DifferInPassword (withProxyPassword (utf8 "a")) (withProxyPassword (utf8 "b")) (utf8 "a") (utf8 "b") ∧
      respond plainEnv (withProxyPassword (utf8 "a")) .getStartConfig ≠
        respond plainEnv (withProxyPassword (utf8 "b")) .getStartConfig := by
  have hdif : DifferInPassword (withProxyPassword (utf8 "a")) (withProxyPassword (utf8 "b")) (utf8 "a") (utf8 "b") :=
    differInPassword_withProxyPassword (by decide) (by decide) (by decide)
  refine ⟨hdif, fun heq => ?_⟩
  have hnone : startParts plainEnv (withProxyPassword (utf8 "a")).data = none := hdif.coreGetStartConfig_eq_iff.1 heq
  exact absurd (congrArg isNone hnone) (by decide)

end CloudeLoader.Config
