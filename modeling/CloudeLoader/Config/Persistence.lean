import CloudeLoader.Config.PluginConfig

/-!
# Requests of children and what is saved (`plugin_loader.cc`)

A child sends `CONFIG_SET` and `CONFIG_DELETE`.  What it sends was decoded without a look at the bytes of strings.
-/

namespace CloudeLoader.Config

open Engine (Bytes utf8)

inductive ChildRequest
  | configSet (plugin : String) (params : JsonValue) (io : SaveIo)
  | configDelete (plugin : String) (params : JsonValue) (io : SaveIo)

def requestKey (params : JsonValue) : Option Bytes :=
  if params.isObject then
    match params.field? (utf8 "key") with
    | none => some []
    | some (.str s) => some s
    | some _ => none
  else none

def requestValue (params : JsonValue) : JsonValue := (params.field? (utf8 "value")).getD .null

namespace ConfigManager

variable (cmp : Comparison) (textSize : JsonValue → Nat)

def handle (m : ConfigManager) : ChildRequest → ConfigManager × Outcome
  | .configSet plugin params io =>
    match requestKey params with
    | none => (m, .threw)
    | some key => m.setConfig cmp textSize io (utf8 plugin) key (requestValue params)
  | .configDelete plugin params io =>
    match requestKey params with
    | none => (m, .threw)
    | some key => m.delConfig cmp io (utf8 plugin) key

def afterRequests (m : ConfigManager) (rs : List ChildRequest) : ConfigManager :=
  rs.foldl (fun m r => (m.handle cmp textSize r).1) m

/-- The request stores a value that is told from the old one, and the name is not UTF-8 or the value is not read back as it
was. -/
def poisons (m : ConfigManager) : ChildRequest → Bool
  | .configSet plugin params _ =>
    match requestKey params with
    | none => false
    | some key =>
      !m.saveDisabled && m.accepts textSize (utf8 plugin) key (requestValue params) &&
        changesBy cmp.equal m.data [pluginsKey, utf8 plugin, configKey] key (requestValue params) &&
        !(JsonValue.isText key && (requestValue params).isLossless)
  | .configDelete _ _ _ => false

/-! ### One request -/

variable {cmp textSize} {m : ConfigManager} {io : SaveIo} {plugin key : Bytes} {value : JsonValue}

theorem isText_utf8 (s : String) : JsonValue.isText (utf8 s) = true := Engine.isUtf8_utf8 s

theorem isText_names (plugin : String) : ∀ k ∈ [pluginsKey, utf8 plugin, configKey], JsonValue.isText k = true := by
  simp only [List.mem_cons, List.not_mem_nil, or_false, forall_eq_or_imp, forall_eq]
  exact ⟨isText_utf8 _, isText_utf8 _, isText_utf8 _⟩

theorem isTextual_of_accepts (h : m.accepts textSize plugin key value = true) : value.isTextual = true := by
  simp only [accepts, Bool.and_eq_true, decide_eq_true_eq] at h
  obtain ⟨-, -, -, hdump, -⟩ := validateLimits_iff.1 h.1.2
  by_contra ht
  exact hdump (if_neg ht)

theorem isFaithful_store (hm : m.data.isFaithful = true) (htext : value.isTextual = true) (plugin : String) :
    (assignBy cmp.equal m.data [pluginsKey, utf8 plugin, configKey] key value).isFaithful = true ↔
      (changesBy cmp.equal m.data [pluginsKey, utf8 plugin, configKey] key value = true →
        (JsonValue.isText key && value.isLossless) = true) := by
  have hval : value.isFaithful = value.isLossless := by
    rw [JsonValue.isFaithful_eq, htext, Bool.true_and]
  rw [Bool.and_eq_true, ← hval]
  exact everywhere_assignBy_iff (isText_names plugin) fun _ => hm

theorem isFaithful_delConfig (hm : m.data.isFaithful = true) (plugin : String) :
    (m.delConfig cmp io (utf8 plugin) key).1.data.isFaithful = true := by
  rw [withData_delConfig.1]
  split
  · have hnam : ∀ k ∈ [pluginsKey, utf8 plugin], JsonValue.isText k = true := fun k hk =>
      isText_names plugin k (List.mem_append_left [configKey] hk)
    refine (everywhere_assignBy_iff hnam fun _ => hm).2 fun _ => ⟨isText_utf8 _, ?_⟩
    exact JsonValue.everywhere_eraseField (everywhere_get hm rfl)
  · exact hm

theorem isFaithful_handle (hd : m.saveDisabled = false) (hm : m.data.isFaithful = true) (r : ChildRequest) :
    (m.handle cmp textSize r).1.data.isFaithful = true ↔ m.poisons cmp textSize r = false := by
  cases r with
  | configSet plugin params io =>
    unfold handle poisons
    dsimp only
    cases requestKey params with
    | none => exact iff_of_true hm rfl
    | some key =>
      dsimp only
      rw [withData_setConfig.1, hd]
      by_cases hacc : m.accepts textSize (utf8 plugin) key (requestValue params) = true
      · rw [if_pos hacc, isFaithful_store hm (isTextual_of_accepts hacc), hacc]
        simp
      · rw [eq_false_of_ne_true hacc]
        exact iff_of_true hm rfl
  | configDelete plugin params io =>
    unfold handle poisons
    dsimp only
    cases requestKey params with
    | none => exact iff_of_true hm rfl
    | some key => exact iff_of_true (isFaithful_delConfig hm plugin) rfl

theorem saveDisabled_handle (r : ChildRequest) : (m.handle cmp textSize r).1.saveDisabled = m.saveDisabled := by
  cases r with
  | configSet plugin params io =>
    unfold handle
    dsimp only
    cases requestKey params with
    | none => rfl
    | some key => exact withData_setConfig.2
  | configDelete plugin params io =>
    unfold handle
    dsimp only
    cases requestKey params with
    | none => rfl
    | some key => exact withData_delConfig.2

theorem persists_handle (hm : m.Persists) (r : ChildRequest) :
    (m.handle cmp textSize r).1.Persists ↔ m.poisons cmp textSize r = false := by
  rw [persists_iff, saveDisabled_handle]
  cases hd : m.saveDisabled with
  | true =>
    refine iff_of_true (.inl rfl) ?_
    cases r with
    | configSet plugin params io =>
      unfold poisons
      dsimp only
      cases requestKey params with
      | none => rfl
      | some key => simp [hd]
    | configDelete plugin params io => rfl
  | false =>
    have hfth : m.data.isFaithful = true := ((persists_iff m).1 hm).resolve_left (by simp [hd])
    simp only [Bool.false_eq_true, false_or]
    exact isFaithful_handle hd hfth r

/-! ### Sequences of requests -/

theorem afterRequests_take_succ {rs : List ChildRequest} {k : Nat} {r : ChildRequest} (h : rs[k]? = some r) :
    m.afterRequests cmp textSize (rs.take (k + 1)) = ((m.afterRequests cmp textSize (rs.take k)).handle cmp textSize r).1 := by
  rw [List.take_add_one, h]
  exact List.foldl_concat _ _ _ _

/-- After every request the configuration can be saved, if and only if no request stores under a name that is not UTF-8 or
stores a value that is not read back as it was. -/
theorem requests_persist_iff (cmp : Comparison) (textSize : JsonValue → Nat) (m : ConfigManager) (hm : m.Persists) (rs : List ChildRequest) :
    (∀ k, (m.afterRequests cmp textSize (rs.take k)).Persists) ↔
      ∀ k r, rs[k]? = some r → (m.afterRequests cmp textSize (rs.take k)).poisons cmp textSize r = false := by
  constructor
  · intro h k r hr
    have hnext := h (k + 1)
    rw [afterRequests_take_succ hr] at hnext
    exact (persists_handle (h k) r).1 hnext
  · intro h k
    induction k with
    | zero => exact hm
    | succ k ih =>
      cases hr : rs[k]? with
      | none =>
        rw [List.take_add_one, hr, Option.toList_none, List.append_nil]
        exact ih
      | some r =>
        rw [afterRequests_take_succ hr]
        exact (persists_handle ih r).2 (h k r hr)

def setRequest (key : Bytes) : ChildRequest :=
  .configSet "theme" (.obj [(utf8 "key", .str key), (utf8 "value", .bool true)]) ⟨true, true, true⟩

def emptyConfig : ConfigManager := ⟨.obj [], .obj [], false, none⟩

theorem requests_persist_setRequest :
    (emptyConfig.afterRequests .same (fun _ => 4) [setRequest (utf8 "dark")]).Persists := by
  refine (requests_persist_iff .same (fun _ => 4) emptyConfig ((persists_iff _).2 (.inr rfl)) [setRequest (utf8 "dark")]).2 ?_ 1
  intro k r hr
  cases k with
  | zero =>
    cases hr
    decide +kernel
  | succ k => cases hr

theorem badName_poisons :
    emptyConfig.Persists ∧ ¬ (emptyConfig.afterRequests .same (fun _ => 4) [setRequest [0xFF]]).Persists := by
  refine ⟨(persists_iff _).2 (.inr rfl), ?_⟩
  rw [persists_iff]
  decide +kernel

end ConfigManager

end CloudeLoader.Config
