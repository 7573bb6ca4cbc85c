import CloudeLoader.Config.Completeness

/-!
# Saving the settings (`entry_point.cc`, `config.cc`)

The frontend gets all settings from `Core_GetBackendConfig`, with a sentinel in the place of the password, and gives them
back to `Core_SetBackendConfig`.
-/

namespace CloudeLoader.Config

open JsonValue ConfigManager List Option

open Engine (Bytes utf8)

section Saving

variable {env : BackendEnv} {m : ConfigManager} {shown : Bool} {config incoming : JsonValue} {k pw : Bytes}

theorem isWellFormed_overlay {j fields} (hj : j.isWellFormed = true)
    (hfld : ∀ x ∈ fields, x.2.isWellFormed = true) : (overlay j fields).isWellFormed = true := by
  induction fields generalizing j with
  | nil => exact hj
  | cons x fields ih =>
    refine ih ?_ fun y hy => hfld y (mem_cons_of_mem _ hy)
    exact isWellFormed_setField (fun _ => hj) (hfld x mem_cons_self)

theorem isWellFormed_getAll (hd : m.defaults.isWellFormed = true) (hobj : m.data.isObject = true)
    (hm : m.data.isWellFormed = true) : m.getAll.isWellFormed = true := by
  refine isWellFormed_overlay hd ?_
  cases hdata : m.data with
  | obj fields =>
    rw [hdata] at hm
    exact (isWellFormed_obj_iff.1 hm).2
  | _ =>
    rw [hdata] at hobj
    cases hobj

theorem setProxyPassword_self {v} (hwf : config.isWellFormed = true) (h : proxyPassword config = some v) :
    setProxyPassword config v = config := by
  obtain ⟨network, hnet, hpw⟩ := bind_eq_some_iff.1 h
  unfold setProxyPassword
  rw [hnet, getD_some, setField_of_field? (isWellFormed_of_field? hwf hnet) hpw,
    setField_of_field? hwf hnet]

theorem setProxyPassword_setProxyPassword {v} (hwf : config.isWellFormed = true) (h : proxyPassword config = some v)
    (v₁ v₂ : JsonValue) : setProxyPassword (setProxyPassword config v₁) v₂ = setProxyPassword config v₂ := by
  obtain ⟨network, hnet, hpw⟩ := bind_eq_some_iff.1 h
  have hobj := isObject_of_field? hpw
  have hnwf := isWellFormed_of_field? hwf hnet
  have hfir : setProxyPassword config v₁ = config.setField networkKey (network.setField proxyPasswordKey v₁) := by
    rw [setProxyPassword, hnet, getD_some]
  rw [hfir, setProxyPassword, field?_setField, if_pos rfl, getD_some,
    setField_setField hnwf hobj, setField_setField hwf (isObject_of_field? hnet), setProxyPassword,
    hnet, getD_some]

theorem data_setAll (listeners : JsonValue → JsonValue) (io : SaveIo) (config : JsonValue) (skip : Bool) :
    (m.setAll listeners io config skip).1.data = config ∨
      (m.setAll listeners io config skip).1.data = afterListeners listeners config skip := by
  unfold setAll
  split
  · exact .inl rfl
  · right
    cases hsave : saveToDisk io
        { m with data := afterListeners listeners config skip } with
    | none => simp only [hsave]
    | some m' =>
      simp only [hsave]
      exact (withData_saveToDisk hsave).1

theorem data_setAll_skip (listeners : JsonValue → JsonValue) (io : SaveIo) (config : JsonValue) :
    (m.setAll listeners io config true).1.data = config := by
  rcases data_setAll listeners io config true with h | h
  · exact h
  · exact h

theorem proxyPassword_getAll_cases (hd : m.defaults = getDefaultConfig shown) (hs : m.data.IsSorted) :
    proxyPassword m.getAll = proxyPassword m.data ∨
      m.data.field? networkKey = none ∧ proxyPassword m.getAll = some (.str []) := by
  unfold proxyPassword
  rw [field?_getAll hs]
  cases hn : m.data.field? networkKey with
  | some network => exact .inl rfl
  | none =>
    refine .inr ⟨rfl, ?_⟩
    rw [none_or, hd]
    have hdef : (getDefaultConfig shown).get? [networkKey, proxyPasswordKey] = some (.str []) := by
      cases shown <;> decide +kernel
    simpa only [get?_cons, get?_nil, bind_fun_some] using hdef

theorem newConfig_masked (hd : m.defaults = getDefaultConfig shown) (hobj : m.data.isObject = true)
    (hm : m.data.isWellFormed = true) (hpw : ∀ v, proxyPassword m.data = some v → ∃ pw, v = .str pw ∧ pw ≠ storedSentinel) :
    ∃ cfg, coreGetBackendConfig m = .value cfg ∧ newConfig env m cfg = some m.getAll := by
  have hs := isSorted_of_isWellFormed hm hobj
  have hwf : m.getAll.isWellFormed = true := isWellFormed_getAll (hd ▸ isWellFormed_getDefaultConfig shown) hobj hm
  unfold coreGetBackendConfig
  cases hp : proxyPassword m.getAll with
  | none => exact ⟨m.getAll, by simp only [hp], by rw [newConfig, hp]⟩
  | some v =>
    obtain ⟨stored, rfl, hget⟩ : ∃ stored, v = .str stored ∧
        (stored ≠ [] → get m.data [networkKey] proxyPasswordKey (.str []) = .str stored) := by
      rcases proxyPassword_getAll_cases hd hs with h | ⟨-, h⟩
      · rw [hp] at h
        obtain ⟨pw, rfl, -⟩ := hpw v h.symm
        refine ⟨pw, rfl, fun _ => ?_⟩
        obtain ⟨network, hn, hpwn⟩ := bind_eq_some_iff.1 h.symm
        rw [get, hn]
        exact congrArg (·.getD (.str [])) hpwn
      · rw [hp] at h
        exact ⟨[], Option.some.inj h, fun hne => absurd rfl hne⟩
    refine ⟨setProxyPassword m.getAll (.str (if stored = [] then [] else storedSentinel)), by simp only [hp], ?_⟩
    by_cases hemp : stored = []
    · subst hemp
      rw [if_pos rfl, setProxyPassword_self hwf hp, newConfig, hp]
      show (if _ then _ else _) = _
      rw [if_neg (by decide), if_pos rfl]
    · rw [if_neg hemp, newConfig, proxyPassword_setProxyPassword]
      show (if _ then _ else _) = _
      rw [if_pos rfl, hget hemp, setProxyPassword_setProxyPassword hwf hp, setProxyPassword_self hwf hp]

theorem proxyPassword_newConfig_ne (hpw : proxyPassword incoming = some (.str pw)) (hne : pw ≠ []) (hsen : pw ≠ storedSentinel)
    (henc : env.encrypt pw ≠ pw) (hnew : newConfig env m incoming = some config) :
    proxyPassword config ≠ some (.str pw) := by
  simp only [newConfig, hpw, if_neg hsen, if_neg hne] at hnew
  split at hnew
  · cases hnew
    rw [proxyPassword, field?_setField, if_pos rfl, bind_some, field?_eraseField]
    exact (some_ne_none _).symm
  · cases hnew
    rw [proxyPassword_setProxyPassword]
    intro heq
    exact henc (str.inj (Option.some.inj heq))

end Saving

/-- Settings that are given back as they were got are stored as they were, with the defaults in the place of missing members;
and a new password is never stored as it is. -/
theorem saving_keeps_password (shown : Bool) (env : BackendEnv) (m : ConfigManager) (hd : m.defaults = getDefaultConfig shown)
    (hobj : m.data.isObject = true) (hm : m.data.isWellFormed = true)
    (hpw : ∀ v, proxyPassword m.data = some v → ∃ pw, v = .str pw ∧ pw ≠ storedSentinel) (hlisteners : env.KeepsNetwork)
    (hencrypt : ∀ pw, pw ≠ [] → env.encrypt pw ≠ pw) :
    (∃ cfg, coreGetBackendConfig m = .value cfg ∧
      (∀ k, (backendConfigSet env m cfg true).data.field? k = (m.data.field? k).or ((getDefaultConfig shown).field? k)) ∧
      (backendConfigSet env m cfg true).data = m.getAll ∧
      ∀ v, proxyPassword m.data = some v → proxyPassword (backendConfigSet env m cfg true).data = some v) ∧
    ∀ incoming pw skip, proxyPassword incoming = some (.str pw) → pw ≠ [] → pw ≠ storedSentinel →
      proxyPassword (backendConfigSet env m incoming skip).data ≠ some (.str pw) := by
  have hs := isSorted_of_isWellFormed hm hobj
  constructor
  · obtain ⟨cfg, hget, hnew⟩ : ∃ cfg, coreGetBackendConfig m = .value cfg ∧ newConfig env m cfg = some m.getAll :=
      newConfig_masked hd hobj hm hpw
    have hdata : (backendConfigSet env m cfg true).data = m.getAll := by
      rw [backendConfigSet, hnew]
      exact data_setAll_skip ..
    refine ⟨cfg, hget, fun k => by rw [hdata, field?_getAll hs, hd], hdata, fun v hv => ?_⟩
    obtain ⟨network, hnet, -⟩ := bind_eq_some_iff.1 hv
    rw [hdata, proxyPassword, field?_getAll hs, hnet, some_or, ← hnet]
    exact hv
  · intro incoming pw skip hpw' hne hsen
    unfold backendConfigSet
    cases hnew : newConfig env m incoming with
    | none =>
      simp only [newConfig, hpw', if_neg hsen, if_neg hne] at hnew
      split at hnew <;> cases hnew
    | some config =>
      have hcon := proxyPassword_newConfig_ne hpw' hne hsen (hencrypt pw hne) hnew
      rcases data_setAll env.listeners env.io config skip with h | h
      · show proxyPassword (m.setAll env.listeners env.io config skip).1.data ≠ _
        rw [h]
        exact hcon
      · show proxyPassword (m.setAll env.listeners env.io config skip).1.data ≠ _
        rw [h, proxyPassword, DifferInPassword.field?_afterListeners hlisteners]
        exact hcon

def markingEnv : BackendEnv := { plainEnv with encrypt := fun pw => utf8 "MGCRYPT:v1:" ++ pw }

theorem saving_keeps_password_stored :
    ∃ cfg, coreGetBackendConfig ⟨(withProxyPassword (utf8 "a")).data, getDefaultConfig true, false, none⟩ = .value cfg ∧
      proxyPassword (backendConfigSet markingEnv ⟨(withProxyPassword (utf8 "a")).data, getDefaultConfig true, false, none⟩
        cfg true).data = some (.str (utf8 "a")) := by
  obtain ⟨⟨cfg, hget, -, -, hkept⟩, -⟩ := saving_keeps_password true markingEnv
    ⟨(withProxyPassword (utf8 "a")).data, getDefaultConfig true, false, none⟩ rfl rfl (by decide +kernel)
    (fun v hv => ⟨utf8 "a", (Option.some.inj hv).symm, by decide⟩) (fun _ => rfl)
    (fun pw _ heq => by simpa [markingEnv, utf8] using congrArg List.length heq)
  exact ⟨cfg, hget, hkept _ rfl⟩

end CloudeLoader.Config
