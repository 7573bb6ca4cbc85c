import CloudeLoader.Theme.Conditions

/-!
# What one pass of the handler registers

The hooks that a theme calls for (`calledFor`) are given by its `skin.json` and by the values that are stored for its
conditions.
-/

namespace CloudeLoader.Theme

open Engine Config ThemeM Command List

/-! ### The hooks that are called for -/

variable (env : ThemeEnv)

def hookAt (path regex : Bytes) (type : TagTypes) : BrowserHook :=
  ⟨joinPath (joinPath env.browser.steamPath (utf8 "steamui")) path, regex, type⟩

def memberHook (themePath : Bytes) (data : JsonValue) (x : Bytes × TagTypes) : Option BrowserHook :=
  match data.field? x.1 with
  | some (.str item) => some (hookAt env (joinPath themePath item) (utf8 ".*") x.2)
  | _ => none

def itemHook (path : Bytes) (item : WebkitItem) : Option BrowserHook :=
  (tagType item).map (hookAt env (joinPath path item.path) item.matchPattern)

def conditionalHooks (path : Bytes) (data themeConditions : JsonValue) : List BrowserHook :=
  match parseConditionalData data themeConditions with
  | .error _ => []
  | .ok items => items.filterMap (itemHook env path)

def memberHooks (path : Bytes) (data : JsonValue) : List BrowserHook :=
  webkitMembers.filterMap (memberHook env path data)

def themeConditions (conditions : Option JsonValue) (name : Bytes) : JsonValue :=
  (conditions.bind (·.field? name)).getD (.obj [])

def calledFor (name : Bytes) (conditions : Option JsonValue) : List BrowserHook :=
  match env.skin name with
  | .valid data =>
    let path := joinPath env.themesPath name
    memberHooks env path data ++ conditionalHooks env path data (themeConditions conditions name)
  | _ => []

def compiles (hook : BrowserHook) : Bool := (env.browser.regexError hook.pattern).isNone

def pass (name : Bytes) (conditions : Option JsonValue) : List BrowserHook :=
  match env.skin name with
  | .valid data =>
    let path := joinPath env.themesPath name
    memberHooks env path data ++
      (conditionalHooks env path data (themeConditions conditions name)).takeWhile (compiles env)
  | _ => []

/-- A member of a theme does not make `start_webkit_hook` throw. -/
def MemberOk (data : JsonValue) (x : Bytes × TagTypes) : Prop :=
  ∀ item, data.field? x.1 = some item → (∃ text, item = .str text) ∧ env.browser.regexError (utf8 ".*") = none

def MembersOk (data : JsonValue) : Prop := ∀ x ∈ webkitMembers, MemberOk env data x

/-! ### Adding hooks -/

def ThemeState.hooks (s : ThemeState) : List BrowserHook := s.registry.hookList.map (·.hook)

structure SameTheme (s t : ThemeState) : Prop where
  themeData : t.themeData = s.themeData
  activeThemeName : t.activeThemeName = s.activeThemeName

structure Adds (s : ThemeState) (new : List BrowserHook) (t : ThemeState) : Prop extends SameTheme s t where
  hooks : t.hooks = s.hooks ++ new
  config : t.config = s.config
  consistent : t.registry.Consistent

variable {env} {D : Prop} {s t : ThemeState} {new : List BrowserHook}

theorem wp_addBrowserHook {path regex type} {Q : Unit → ThemeState → Prop} {E : ThemeState → Prop}
    (hr : s.registry.Consistent)
    (hok : env.browser.regexError regex = none → ∀ t, Adds s [hookAt env path regex type] t → Q () t)
    (herr : ∀ what, env.browser.regexError regex = some what → E s) : (addBrowserHook env path regex type).wp D Q E s := by
  simp only [addBrowserHook, wp_bind, wp_get, HookRegistry.addBrowserHook_eq]
  cases hreg : env.browser.regexError regex with
  | some what => exact herr what hreg
  | none => exact hok hreg _ ⟨⟨rfl, rfl⟩, by simp [ThemeState.hooks, HookRegistry.added, hookAt], rfl, hr.added _⟩

theorem Adds.refl (hr : s.registry.Consistent) : Adds s [] s := ⟨⟨rfl, rfl⟩, by simp, rfl, hr⟩

theorem Adds.trans {u more} (h : Adds s new t) (h' : Adds t more u) : Adds s (new ++ more) u :=
  ⟨⟨h'.themeData.trans h.themeData, h'.activeThemeName.trans h.activeThemeName⟩,
    by rw [h'.hooks, h.hooks, append_assoc], h'.config.trans h.config, h'.consistent⟩

theorem wp_forM_addItem (path : Bytes) (items : List WebkitItem) (hr : s.registry.Consistent) :
    (forM items (addItem env path) : ThemeM Unit).wp D
      (fun _ => Adds s ((items.filterMap (itemHook env path)).takeWhile (compiles env)))
      (Adds s ((items.filterMap (itemHook env path)).takeWhile (compiles env))) s := by
  refine wp_mono (wp_forM (I := fun rest t => ∃ new, Adds s new t ∧
    new ++ (rest.filterMap (itemHook env path)).takeWhile (compiles env) =
      (items.filterMap (itemHook env path)).takeWhile (compiles env)) ?_ ⟨[], .refl hr, rfl⟩) ?_ fun _ h => h
  · rintro item rest t - ⟨new, hadds, hnew⟩
    rw [addItem]
    cases htype : tagType item with
    | none =>
      have hnone : itemHook env path item = none := by simp [itemHook, htype]
      rw [filterMap_cons_none hnone] at hnew
      exact ⟨new, hadds, hnew⟩
    | some type =>
      have hsome : itemHook env path item = some (hookAt env (joinPath path item.path) item.matchPattern type) := by
        simp [itemHook, htype]
      rw [filterMap_cons_some hsome, takeWhile_cons] at hnew
      refine wp_addBrowserHook hadds.consistent ?_ ?_
      · intro hreg u hu
        refine ⟨_, hadds.trans hu, ?_⟩
        have hcom : compiles env (hookAt env (joinPath path item.path) item.matchPattern type) = true := by
          simp [compiles, hookAt, hreg]
        rw [if_pos hcom] at hnew
        rw [append_assoc, singleton_append, hnew]
      · intro what hreg
        have hcom : ¬ compiles env (hookAt env (joinPath path item.path) item.matchPattern type) = true := by
          simp [compiles, hookAt, hreg]
        rw [if_neg hcom, append_nil] at hnew
        rwa [← hnew]
  · rintro - t ⟨new, hadds, hnew⟩
    rw [← hnew]
    simpa using hadds

theorem wp_addConditionalData {E : ThemeState → Prop} (path : Bytes) (data : JsonValue) (name : Bytes)
    (hr : s.registry.Consistent) :
    (addConditionalData env path data name).wp D (fun _ => Adds s ((conditionalHooks env path data
      (themeConditions (member s.config.data conditionsKey) name)).takeWhile (compiles env))) E s := by
  rw [addConditionalData, wp_guarded, read_bind, wp_bind, wp_get, get_member_child, conditionalHooks,
    themeConditions]
  cases parseConditionalData data ((member s.config.data conditionsKey |>.bind (·.field? name)).getD (.obj [])) with
  | error what => exact .refl hr
  | ok items => exact wp_forM_addItem path items hr

theorem wp_forM_addMember (path : Bytes) (data : JsonValue) (hr : s.registry.Consistent) :
    (forM webkitMembers (addMember env path data) : ThemeM Unit).wp D
      (fun _ t => Adds s (memberHooks env path data) t ∧ MembersOk env data)
      (fun t => (∃ new, Adds s new t) ∧ ¬ MembersOk env data) s := by
  refine wp_mono (wp_forM (I := fun rest t => ∃ new, Adds s new t ∧
    new ++ rest.filterMap (memberHook env path data) = memberHooks env path data ∧
      ((∀ x ∈ rest, MemberOk env data x) → MembersOk env data)) ?_ ⟨[], .refl hr, rfl, id⟩) ?_ fun _ h => h
  · rintro x rest t hsuf ⟨new, hadds, hnew, hok⟩
    have hmem : x ∈ webkitMembers := hsuf.subset mem_cons_self
    have hok' : MemberOk env data x → (∀ y ∈ rest, MemberOk env data y) → MembersOk env data := fun hx hrest =>
      hok (forall_mem_cons.2 ⟨hx, hrest⟩)
    rw [addMember]
    cases hfld : data.field? x.1 with
    | none =>
      have hnone : memberHook env path data x = none := by simp [memberHook, hfld]
      rw [filterMap_cons_none hnone] at hnew
      exact ⟨new, hadds, hnew, hok' (by simp [MemberOk, hfld])⟩
    | some item =>
      cases item with
      | str text =>
        have hsome : memberHook env path data x = some (hookAt env (joinPath path text) (utf8 ".*") x.2) := by
          simp [memberHook, hfld]
        rw [filterMap_cons_some hsome] at hnew
        refine wp_addBrowserHook hadds.consistent ?_ ?_
        · intro hreg u hu
          exact ⟨_, hadds.trans hu, by rw [append_assoc, singleton_append, hnew],
            hok' (by simp [MemberOk, hfld, hreg])⟩
        · intro what hreg
          refine ⟨⟨new, hadds⟩, fun hmmb => ?_⟩
          rw [(hmmb x hmem _ hfld).2] at hreg
          cases hreg
      | _ =>
        refine ⟨⟨new, hadds⟩, fun hmmb => ?_⟩
        obtain ⟨⟨text, heq⟩, -⟩ := hmmb x hmem _ hfld
        cases heq
  · rintro - t ⟨new, hadds, hnew, hok⟩
    rw [filterMap_nil, append_nil] at hnew
    subst hnew
    exact ⟨hadds, hok (by simp)⟩

def themeValue (env : ThemeEnv) (name : Bytes) : JsonValue :=
  match env.skin name with
  | .valid data => .obj [(utf8 "data", data), (utf8 "native", .str name)]
  | _ => .obj [(utf8 "failed", .bool true)]

/-- The active theme does not make `start_webkit_hook` throw. -/
def ThemeOk (env : ThemeEnv) (name : Bytes) : Prop := ∀ data, env.skin name = .valid data → MembersOk env data

theorem wp_startWebkitHook (name : Bytes) (hr : s.registry.Consistent) :
    (startWebkitHook env (themeValue env name) name).wp D
      (fun _ t => Adds s (pass env name (member s.config.data conditionsKey)) t ∧ ThemeOk env name)
      (fun t => (∃ new, Adds s new t) ∧ ¬ ThemeOk env name) s := by
  rw [startWebkitHook, themeValue, pass]
  cases hskin : env.skin name with
  | valid data =>
    have hdata : ((JsonValue.obj [(utf8 "data", data), (utf8 "native", .str name)]).field? (utf8 "data")).getD .null = data := rfl
    have hfld : (JsonValue.obj [(utf8 "data", data), (utf8 "native", .str name)]).field? (utf8 "failed") = none := rfl
    have hiff : ThemeOk env name ↔ MembersOk env data := by simp [ThemeOk, hskin]
    simp only [hfld, hdata, wp_bind, hiff]
    refine wp_mono (wp_forM_addMember _ data hr) ?_ fun _ h => h
    rintro - t ⟨hadds, hok⟩
    refine wp_mono (wp_addConditionalData _ data name hadds.consistent) ?_ fun _ h => h
    intro _ u hu
    rw [hadds.config] at hu
    exact ⟨hadds.trans hu, hok⟩
  | _ => exact ⟨.refl hr, by simp [ThemeOk, hskin]⟩

/-! ### Writing and saving -/

section Writing

variable {listener : ThemeM Unit} {names : List Bytes} {last : Bytes} {value : JsonValue} {Q : Unit → ThemeState → Prop}
  {E : ThemeState → Prop}

theorem wp_saveToDisk
    (hok : ∀ config, s.config.saveToDisk env.io = some config → config.data = s.config.data → Q () { s with config })
    (hthr : s.config.saveToDisk env.io = none → E s) : (saveToDisk env).wp D Q E s := by
  simp only [saveToDisk, wp_bind, wp_get]
  cases hsave : s.config.saveToDisk env.io with
  | none => exact hthr hsave
  | some config => exact hok config hsave (ConfigManager.withData_saveToDisk hsave).1

def ThemeState.assigned (s : ThemeState) (names : List Bytes) (last : Bytes) (value : JsonValue) : ThemeState :=
  { s with config := { s.config with data := assignBy sameValue s.config.data names last value } }

theorem wp_assign_skip (hval : value.isPlain = true) (hset : settable s.config.data names = true) (hQ : Q () (s.assigned names last value)) :
    (assign env listener names last value true).wp D Q E s := by
  simp only [ThemeM.assign, wp_bind, wp_get, hset, if_true, putData, wp_update, wp_only,
    Bool.not_true, Bool.and_false, assignBy_of_isPlain env.cmp hval]
  exact ⟨fun h => absurd h (by simp), fun _ => hQ⟩

theorem wp_assign (hval : value.isPlain = true) (hset : settable s.config.data names = true)
    (hchn : changesBy sameValue s.config.data names last value = true)
    (hlis : listener.wp D (fun _ => (saveToDisk env).wp D Q E) ((saveToDisk env).wp D Q E) (s.assigned names last value)) :
    (assign env listener names last value false).wp D Q E s := by
  simp only [ThemeM.assign, wp_bind, wp_get, hset, if_true, putData, wp_update, wp_only,
    assignBy_of_isPlain env.cmp hval, changesBy_of_isPlain env.cmp hval, hchn, Bool.not_false, Bool.and_true, wp_guarded]
  exact ⟨fun _ => hlis, fun h => absurd h (by simp)⟩

end Writing

/-! ### Colours -/

structure Keeps (s t : ThemeState) : Prop extends SameTheme s t where
  active : member t.config.data activeThemeKey = member s.config.data activeThemeKey
  conditions : member t.config.data conditionsKey = member s.config.data conditionsKey
  registry : t.registry = s.registry

theorem Keeps.of_data {config} (h : Keeps s t) (hdata : config.data = t.config.data) : Keeps s { t with config } :=
  ⟨⟨h.themeData, h.activeThemeName⟩, by rw [hdata]; exact h.active, by rw [hdata]; exact h.conditions, h.registry⟩

section Colours

variable {active : JsonValue} (hs : member s.config.data activeThemeKey = some active)

include hs

theorem wp_assign_color {names last value listener} (hval : value.isPlain = true)
    (hnam : names.headD last = themeColorsKey) (h : Keeps s t) :
    (assign env listener (themesKey :: names) last value true).wp D (fun _ => Keeps s) (Keeps s) t := by
  refine wp_assign_skip hval (settable_of_member (h.active.trans hs))
    ⟨⟨h.themeData, h.activeThemeName⟩, ?_, ?_, h.registry⟩
  · exact (member_assign_of_ne (by rw [hnam]; decide)).trans h.active
  · exact (member_assign_of_ne (by rw [hnam]; decide)).trans h.conditions

theorem wp_only_assign_color {b names last value listener} (hval : value.isPlain = true)
    (hnam : names.headD last = themeColorsKey) (h : Keeps s t) :
    (only b (assign env listener (themesKey :: names) last value true)).wp D (fun _ => Keeps s) (Keeps s) t :=
  wp_only.2 ⟨fun _ => wp_assign_color hs hval hnam h, fun _ => h⟩

theorem wp_setupColor (name : Bytes) (color : JsonValue) (h : Keeps s t) :
    (setupColor env name color).wp D (fun _ => Keeps s) (Keeps s) t := by
  rw [setupColor]
  split
  · split
    · rw [wp_bind, wp_demand]
      refine ⟨fun value _ => ?_, fun _ _ => h⟩
      cases value with
      | none => exact h
      | some value =>
        exact wp_only_assign_color hs rfl rfl h
    · exact h
  · exact h

theorem wp_setupThemeColors (theme : Bytes × JsonValue) (h : Keeps s t) :
    (setupThemeColors env theme).wp D (fun _ => Keeps s) (Keeps s) t := by
  rw [setupThemeColors]
  split
  · exact h
  · rw [wp_bind, wp_demand]
    refine ⟨fun rootFile _ => ?_, fun _ _ => h⟩
    rw [wp_bind, wp_demand]
    refine ⟨fun colors _ => ?_, fun _ _ => h⟩
    rw [read_bind, wp_bind, wp_get, wp_bind]
    refine wp_mono (wp_only_assign_color hs rfl rfl h) ?_ fun _ h => h
    intro _ u hu
    rw [read_bind, wp_bind, wp_get, wp_bind]
    refine wp_mono (wp_only_assign_color hs rfl rfl hu) ?_ fun _ h => h
    intro _ v hv
    exact wp_forM (fun color _ _ _ h => wp_setupColor hs theme.1 color h) hv

theorem wp_setupColors : (setupColors env).wp D (fun _ => Keeps s) (Keeps s) s := by
  have hself : Keeps s s := ⟨⟨rfl, rfl⟩, rfl, rfl, rfl⟩
  rw [setupColors, wp_bind, wp_demand]
  refine ⟨fun themes _ => ?_, fun _ _ => hself⟩
  rw [wp_bind]
  refine wp_mono (wp_forM (fun theme _ _ _ h => wp_setupThemeColors hs theme h) hself)
    ?_ fun _ h => h
  intro _ t ht
  exact wp_saveToDisk (fun config _ hdata => ht.of_data hdata) fun _ => ht

end Colours

end CloudeLoader.Theme
