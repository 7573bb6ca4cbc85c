import CloudeLoader.Theme.Reentrancy

/-!
# Every condition gets a value (`theme_cfg.cc`)

The handler stores the default of a condition and is called again before it goes on.
-/

namespace CloudeLoader.Theme

open Engine Config ThemeM Command JsonValue List Option

variable {env : ThemeEnv} {a : Bytes} {s t u : ThemeState} {listener : ThemeM Unit} {n : Nat}

/-! ### However a call ends -/

structure Mended (env : ThemeEnv) (a : Bytes) (s t : ThemeState) : Prop where
  ready : Ready env a t
  conditions : t.conditions = repairs.fill (places env) s.conditions

/-- The listener ends, where fewer than `n` values are to be stored, with all of them stored. -/
def Mends (env : ThemeEnv) (a : Bytes) (listener : ThemeM Unit) (n : Nat) : Prop :=
  ∀ s, Settled env a s → s.pending env < n → listener.wp False (fun _ => Mended env a s) (Mended env a s) s

/-- Nothing in `setup_conditionals` throws but saving. -/
def PlanOk (env : ThemeEnv) : Prop := ∀ e ∈ plan env, ∃ place, e = .ok place

theorem Mended.congr (h : Mended env a s t) (hc : s.conditions = u.conditions) : Mended env a u t :=
  ⟨h.ready, by rw [← hc]; exact h.conditions⟩

theorem Mended.of_data {config} (h : Mended env a s t) (hdata : config.data = t.config.data) :
    Mended env a s { t with config } :=
  ⟨h.ready.of_data hdata, (conditions_of_data hdata).trans h.conditions⟩

theorem Mended.of_adds {new} (h : Mended env a s t) (hadds : Adds t new u) : Mended env a s u :=
  ⟨h.ready.of_adds hadds, hadds.conditions.trans h.conditions⟩

theorem Mended.of_keeps (h : Mended env a s t) (hk : Keeps t u) : Mended env a s u :=
  ⟨h.ready.of_keeps hk, hk.conditions.trans h.conditions⟩

theorem Mended.wp_saveToDisk (h : Mended env a s t) :
    (saveToDisk env).wp False (fun _ => Mended env a s) (Mended env a s) t :=
  Theme.wp_saveToDisk (fun _ _ hdata => h.of_data hdata) fun _ => h

/-- In the loop: nothing was stored yet and nothing had to be, or everything is stored. -/
structure Mending (env : ThemeEnv) (a : Bytes) (s : ThemeState) (rest : List (Except Bytes Place)) (t : ThemeState) : Prop where
  ready : Ready env a t
  rounds : ∃ pre, plan env = pre ++ rest ∧
    (t.conditions = s.conditions ∧ (∀ place, .ok place ∈ pre → place.needs s.conditions = false) ∨
      t.conditions = repairs.fill (places env) s.conditions)

theorem wp_mend_mending {place rest} (hmen : Mends env a listener n)
    (hn : s.pending env ≤ n) (h : Mending env a s (.ok place :: rest) t) :
    (mend env listener place).wp False (fun _ => Mending env a s rest) (Mended env a s) t := by
  obtain ⟨pre, hplan, hstr⟩ := h.rounds
  have hmem : place ∈ places env := by simp [places_of_plan hplan]
  have hplan' : plan env = (pre ++ [.ok place]) ++ rest := by rw [hplan, append_assoc, singleton_append]
  rw [mend, wp_bind, wp_get, wp_only]
  refine ⟨fun hnds => ?_, fun hnot => ?_⟩
  · -- nothing is needed where everything is stored
    obtain ⟨hsame, hpre⟩ | hfill := hstr
    · have hlt : (t.assigned place.names place.last place.value).pending env < s.pending env := by
        rw [ThemeState.pending, member_assigned_conditions, ← pending_of_conditions hsame]
        exact (steady_places env).pending_put hmem hnds
      have hdone : ∀ u, Mended env a (t.assigned place.names place.last place.value) u → Mended env a s u := by
        intro u hu
        exact ⟨hu.ready, hu.conditions.trans (fill_assigned hplan hsame hpre hnds)⟩
      have hsave : ∀ u, Mended env a (t.assigned place.names place.last place.value) u →
          (saveToDisk env).wp False (fun _ => Mending env a s rest) (Mended env a s) u := by
        intro u hu
        refine wp_mono (hdone u hu).wp_saveToDisk ?_ fun _ h => h
        exact fun _ v hv => ⟨hv.ready, pre ++ [.ok place], hplan', .inr hv.conditions⟩
      refine wp_assign place.isPlain_value (settable_of_member h.ready.active) (changes_of_needs place hnds) ?_
      exact wp_mono (hmen _ (h.ready.toSettled.assigned place) (by omega)) (fun _ u hu => hsave u hu) hsave
    · have hnone := (steady_places env).needs_fill (d := s.conditions) place hmem
      rw [← hfill] at hnone
      exact absurd (hnds.symm.trans hnone) (by simp)
  · refine ⟨h.ready, pre ++ [.ok place], hplan', hstr.imp ?_ id⟩
    rintro ⟨hsame, hpre⟩
    refine ⟨hsame, fun x hx => ?_⟩
    obtain hx | hx := mem_append.1 hx
    · exact hpre x hx
    · cases mem_singleton.1 hx
      rw [← hsame]
      exact hnot

theorem Mending.mended (hplan : PlanOk env) (h : Mending env a s [] t) : Mended env a s t := by
  obtain ⟨pre, heq, ⟨hsame, hpre⟩ | hfill⟩ := h.rounds
  · rw [append_nil] at heq
    refine ⟨h.ready, ?_⟩
    have hnone : ∀ x ∈ places env, repairs.needs s.conditions x = false := by
      intro x hx
      obtain ⟨e, he, hex⟩ := mem_filterMap.1 hx
      obtain ⟨y, rfl⟩ := hplan e he
      obtain rfl : y = x := some.inj hex
      exact hpre y (heq ▸ he)
    rw [hsame, Repairs.fill_of_not_needs hnone]
  · exact ⟨h.ready, hfill⟩

theorem wp_setupConditionals_mended (hplan : PlanOk env) (hmen : Mends env a listener n) (hn : s.pending env ≤ n)
    (hs : Ready env a s) : (setupConditionals env listener).wp False (fun _ => Mended env a s) (Mended env a s) s := by
  rw [setupConditionals_eq, wp_bind]
  refine wp_mono (wp_forM (I := Mending env a s) ?_ ⟨hs, [], rfl, .inl ⟨rfl, by simp⟩⟩) ?_ fun _ h => h
  · intro e rest t hsuf h
    rw [wp_bind]
    obtain ⟨place, rfl⟩ := hplan e (hsuf.subset mem_cons_self)
    exact wp_mend_mending hmen hn h
  · exact fun _ t h => (h.mended hplan).wp_saveToDisk

theorem wp_activate_mended (hplan : PlanOk env) (hmen : Mends env a listener n) (hn : s.pending env ≤ n)
    (hs : Settled env a s) :
    (unregisterAll >>= fun _ => setupThemeHooks env listener).wp False (fun _ => Mended env a s) (Mended env a s) s := by
  have hemp := hs.consistent.unregisterAll_hookList
  rw [wp_bind, unregisterAll, wp_update, setupThemeHooks, wp_bind]
  refine wp_getActiveTheme hs.active ?_
  simp only [wp_bind, wp_update, read_bind, get_member, wp_get, hs.active, getD_some,
    getString, demand_ok, wp_pure]
  have hrdy : Ready env a { s with
      registry := s.registry.unregisterAll, themeData := themeValue env a, activeThemeName := a } :=
    ⟨⟨hs.active, hs.valid, by intro entry hent; rw [hemp] at hent; cases hent⟩, rfl, rfl⟩
  refine wp_mono (wp_setupConditionals_mended hplan hmen hn hrdy) ?_ fun _ h => h.congr rfl
  intro _ t ht
  have ht' : Mended env a s t := ht.congr rfl
  rw [wp_bind, wp_get, wp_bind, ht.ready.themeData, ht.ready.activeThemeName]
  refine wp_mono (wp_startWebkitHook a ht.ready.consistent) ?_ ?_
  · rintro - u ⟨hadds, -⟩
    have hu := ht'.of_adds hadds
    exact wp_mono (wp_setupColors hu.ready.active) (fun _ v hv => hu.of_keeps hv) fun v hv => hu.of_keeps hv
  · rintro u ⟨⟨new, hadds⟩, -⟩
    exact ht'.of_adds hadds

theorem mends_onConfigChangeHdlr (hplan : PlanOk env) (a : Bytes) (n : Nat) : Mends env a (onConfigChangeHdlr env n) n := by
  induction n with
  | zero =>
    intro s _ hlt
    omega
  | succ n ih =>
    intro s hs hlt
    rw [onConfigChangeHdlr, wp_bind]
    exact wp_validateTheme_settled hs (wp_activate_mended hplan ih (by omega) hs)

/-! ### The outermost call -/

def Complete (env : ThemeEnv) (s t : ThemeState) : Prop := t.conditions = repairs.fill (places env) s.conditions

theorem wp_assign_default_mended (hobj : s.config.data.isObject = true) (hr : s.registry.Consistent)
    (hres : resets env s.config.data = true) (hmen : Mends env defaultTheme listener n) (hn : s.pending env < n) :
    (assign env listener [themesKey] activeThemeKey (.str defaultTheme) false).wp False
      (fun _ => Mended env defaultTheme s) (Mended env defaultTheme s) s := by
  have hset : settable s.config.data [themesKey] = true := by simp [settable, hobj]
  have hcon : (s.assigned [themesKey] activeThemeKey (.str defaultTheme)).conditions = s.conditions :=
    member_assign_of_ne (show conditionsKey ≠ activeThemeKey by decide)
  have hstt : Settled env defaultTheme (s.assigned [themesKey] activeThemeKey (.str defaultTheme)) :=
    ⟨member_assign_self (by simp), .inl rfl, hr⟩
  have hsave : ∀ t, Mended env defaultTheme (s.assigned [themesKey] activeThemeKey (.str defaultTheme)) t →
      (saveToDisk env).wp False (fun _ => Mended env defaultTheme s) (Mended env defaultTheme s) t :=
    fun t ht => (ht.congr hcon).wp_saveToDisk
  refine wp_assign rfl hset (changes_of_resets hres) ?_
  refine wp_mono (hmen _ hstt ?_) (fun _ t ht => hsave t ht) hsave
  rw [pending_of_conditions hcon]
  exact hn

def ActiveOk (data : JsonValue) : Prop := ∀ v, member data activeThemeKey = some v → ∃ name, v = .str name

theorem wp_validateTheme_mended (hobj : s.config.data.isObject = true) (hr : s.registry.Consistent)
    (hact : ActiveOk s.config.data) (hmen : Mends env defaultTheme listener n) (hn : s.pending env < n) :
    (validateTheme env listener).wp False
      (fun _ t => (∃ a, Settled env a t) ∧ (t.conditions = s.conditions ∨ Complete env s t)) (Complete env s) s := by
  have hdone : ∀ t, Mended env defaultTheme s t →
      (∃ a, Settled env a t) ∧ (t.conditions = s.conditions ∨ Complete env s t) :=
    fun t ht => ⟨⟨defaultTheme, ht.ready.toSettled⟩, .inr ht.conditions⟩
  cases hm : member s.config.data activeThemeKey with
  | none =>
    have hres : resets env s.config.data = true := by simp [resets, hm]
    simp only [validateTheme, read_bind, get_member, wp_bind, wp_get, hm, getD_none, isNull,
      wp_only]
    refine ⟨fun _ => ?_, by simp⟩
    refine wp_mono (wp_assign_default_mended hobj hr hres hmen hn) ?_ fun _ h => h.conditions
    intro _ t ht
    simp only [wp_bind, wp_get, ht.ready.active, getD_some, getString, demand_ok,
      wp_pure, wp_only]
    exact ⟨by simp, fun _ => hdone t ht⟩
  | some v =>
    obtain ⟨a, rfl⟩ := hact v hm
    have hres : resets env s.config.data = (decide (a ≠ defaultTheme) && !env.isValid a) := by simp [resets, hm]
    simp only [validateTheme, read_bind, get_member, wp_bind, wp_get, hm, getD_some, isNull,
      getString, demand_ok, wp_pure, wp_only, ← hres, Bool.false_eq_true, false_imp_iff,
      true_imp_iff, true_and]
    refine ⟨fun h => ?_, fun h => ⟨⟨a, hm, ?_, hr⟩, .inl trivial⟩⟩
    · exact wp_mono (wp_assign_default_mended hobj hr h hmen hn) (fun _ t ht => hdone t ht) fun _ h => h.conditions
    · rw [hres] at h
      by_cases hdef : a = defaultTheme
      · exact .inl hdef
      · exact .inr (by simpa [hdef] using h)

theorem Complete.trans (h : t.conditions = s.conditions ∨ Complete env s t) (h' : Complete env t u) : Complete env s u := by
  unfold Complete at h h' ⊢
  rw [h']
  obtain hsame | hfill := h
  · rw [hsame]
  · rw [hfill, Repairs.fill_of_not_needs (steady_places env).needs_fill]

theorem Complete.pending_le (h : t.conditions = s.conditions ∨ Complete env s t) : t.pending env ≤ s.pending env := by
  obtain hsame | hfill := h
  · exact (pending_of_conditions hsame).le
  · have hzero : t.pending env = 0 := by
      rw [ThemeState.pending, hfill, Repairs.pending_eq_zero]
      exact (steady_places env).needs_fill
    omega

theorem exists_complete (hplan : PlanOk env) (hobj : s.config.data.isObject = true) (hr : s.registry.Consistent)
    (hact : ActiveOk s.config.data) {fuel : Nat} (hfuel : s.pending env + 2 ≤ fuel) :
    ∃ out t, (onConfigChangeHdlr env fuel).eval s = some (out, t) ∧ Complete env s t := by
  obtain ⟨n, rfl⟩ : ∃ n, fuel = n + 1 := ⟨fuel - 1, by omega⟩
  have hmen := fun a => mends_onConfigChangeHdlr hplan a n
  have hwp : (onConfigChangeHdlr env (n + 1)).wp False (fun _ => Complete env s) (Complete env s) s := by
    rw [onConfigChangeHdlr, wp_bind]
    refine wp_mono (wp_validateTheme_mended hobj hr hact (hmen defaultTheme) (by omega)) ?_ fun _ h => h
    rintro - t ⟨⟨a, ht⟩, hor⟩
    have hpen := Complete.pending_le hor
    exact wp_mono (wp_activate_mended hplan (hmen a) (by omega) ht)
      (fun _ u hu => Complete.trans hor hu.conditions) fun u hu => Complete.trans hor hu.conditions
  obtain ⟨out, t, hrun⟩ := exists_of_wp hwp
  refine ⟨out, t, hrun, ?_⟩
  unfold wp at hwp
  rw [hrun] at hwp
  cases out with
  | ok _ => exact hwp
  | error what => exact hwp

/-! ### Conditions of installed themes -/

structure Installed (env : ThemeEnv) (theme name : Bytes) (condition : JsonValue) : Prop where
  dir : theme ∈ env.dirs
  skin : ∃ data fields, env.skin theme = .valid data ∧ data.field? (utf8 "Conditions") = some (.obj fields) ∧
    (name, condition) ∈ fields

/-- A stored value that is valid for a condition: any string for a slider, and one of the values if there are some. -/
def ValidValue (condition : JsonValue) (stored : Option JsonValue) : Prop :=
  match condition.field? (utf8 "slider"), condition.field? (utf8 "values") with
  | some (.obj _), _ => ∃ text, stored = some (.str text)
  | _, some (.obj (x :: rest)) => ∃ text, stored = some (.str text) ∧ ((x :: rest).lookup text).isSome
  | _, _ => True

structure WellTyped (env : ThemeEnv) : Prop where
  parses : ∀ dir ∈ env.dirs, ∀ what, env.skin dir ≠ .invalid what
  isObject : ∀ dir ∈ env.dirs, ∀ data, env.skin dir = .valid data → data.isObject = true
  minimum : ∀ theme name condition slider least, Installed env theme name condition →
    condition.field? (utf8 "slider") = some (.obj slider) → (obj slider).field? (utf8 "min") = some least →
    ∃ n, least.getInt = .ok n

section Installed

variable {theme name : Bytes} {condition : JsonValue}

theorem Check.fails_eq_false_iff (check : Check) (stored : Option JsonValue) :
    check.fails stored = false ↔
      ∃ text, stored = some (.str text) ∧ ∀ fields, check.values = some fields → (fields.lookup text).isSome := by
  have hoth : (∀ text, stored ≠ some (.str text)) → check.fails stored = true → (check.fails stored = false ↔
      ∃ text, stored = some (.str text) ∧ ∀ fields, check.values = some fields → (fields.lookup text).isSome) := by
    intro hne htrue
    refine iff_of_false (by simp [htrue]) ?_
    rintro ⟨text, htext, -⟩
    exact hne text htext
  cases stored with
  | none => exact hoth (by simp) rfl
  | some v =>
    cases v with
    | str text =>
      rw [Check.fails]
      cases check.values with
      | none => simp
      | some fields => simp
    | _ => exact hoth (by simp) rfl

theorem conditionCheck_spec {check} (h : conditionCheck condition = .ok check) (stored : Option JsonValue) :
    ValidValue condition stored ↔ ∀ c, check = some c → c.fails stored = false := by
  -- a condition that is not a slider may have values
  have hval : (∀ slider, condition.field? (utf8 "slider") ≠ some (.obj slider)) →
      (ValidValue condition stored ↔ ∀ c, check = some c → c.fails stored = false) := by
    intro hsld
    unfold conditionCheck at h
    unfold ValidValue
    cases hv : condition.field? (utf8 "values") with
    | none =>
      simp only [hv, Except.ok.injEq] at h ⊢
      simp [← h]
    | some v =>
      cases v with
      | obj fields =>
        cases fields with
        | nil =>
          simp only [hv, Except.ok.injEq] at h ⊢
          simp [← h]
        | cons x rest =>
          simp only [hv, Except.ok.injEq] at h ⊢
          subst h
          simp only [some.injEq, forall_eq', Check.fails_eq_false_iff]
      | _ =>
        simp only [hv, Except.ok.injEq] at h ⊢
        simp [← h]
  cases hs : condition.field? (utf8 "slider") with
  | none => exact hval (by simp [hs])
  | some v =>
    cases v with
    | obj slider =>
      simp only [conditionCheck, hs] at h
      simp only [ValidValue, hs]
      cases hd : sliderDefault condition (.obj slider) with
      | error what =>
        rw [hd] at h
        cases h
      | ok default =>
        rw [hd] at h
        obtain rfl := Except.ok.inj h
        simp [Check.fails_eq_false_iff]
    | _ => exact hval (by simp [hs])

theorem exists_conditionCheck (h : ∀ slider least, condition.field? (utf8 "slider") = some (.obj slider) →
      (obj slider).field? (utf8 "min") = some least → ∃ n, least.getInt = .ok n) :
    ∃ check, conditionCheck condition = .ok check := by
  unfold conditionCheck
  split
  · next slider hs =>
    unfold sliderDefault
    dsimp only
    split
    · exact ⟨_, rfl⟩
    · exact ⟨_, rfl⟩
    · cases hm : (obj slider).field? (utf8 "min") with
      | none => exact ⟨_, rfl⟩
      | some least =>
        obtain ⟨n, hn⟩ := h slider least hs hm
        exact ⟨_, by simp only [hn]; rfl⟩
  · exact ⟨_, rfl⟩
  · exact ⟨_, rfl⟩

theorem exists_mem_collectThemes {dirs} (h : ∀ dir ∈ dirs, ∀ what, env.skin dir ≠ .invalid what) :
    ∃ themes, env.collectThemes dirs = .ok themes ∧ (∀ x ∈ themes, x.1 ∈ dirs) ∧
      ∀ dir ∈ dirs, ∀ data, env.skin dir = .valid data → (dir, data) ∈ themes := by
  induction dirs with
  | nil => exact ⟨[], rfl, by simp, by simp⟩
  | cons dir dirs ih =>
    obtain ⟨themes, hthm, hsub, hmem⟩ := ih fun d hd => h d (mem_cons_of_mem dir hd)
    have hsub' : ∀ x ∈ themes, x.1 ∈ dir :: dirs := fun x hx => mem_cons_of_mem dir (hsub x hx)
    rw [ThemeEnv.collectThemes]
    cases hskin : env.skin dir with
    | invalid what => exact absurd hskin (h dir mem_cons_self what)
    | valid data =>
      refine ⟨(dir, data) :: themes, by rw [hthm]; rfl, forall_mem_cons.2 ⟨mem_cons_self, hsub'⟩, ?_⟩
      intro d hd data' hdata'
      obtain rfl | hd := mem_cons.1 hd
      · cases hskin.symm.trans hdata'
        exact mem_cons_self
      · exact mem_cons_of_mem _ (hmem d hd data' hdata')
    | missing | locked =>
      refine ⟨themes, hthm, hsub', fun d hd data' hdata' => ?_⟩
      obtain rfl | hd := mem_cons.1 hd
      · cases hskin.symm.trans hdata'
      · exact hmem d hd data' hdata'

theorem themePlan_of_isObject {x} (h : x.2.isObject = true) : themePlan x = match x.2.field? (utf8 "Conditions") with
    | some (.obj fields) => fields.filterMap (conditionPlan x.1) | _ => [] := by
  rw [themePlan, valueOf, if_pos h]
  cases x.2.field? (utf8 "Conditions") with
  | none => rfl
  | some v => cases v <;> rfl

theorem WellTyped.planOk (h : WellTyped env) : PlanOk env := by
  intro e he
  obtain ⟨themes, hthm, hsub, -⟩ := exists_mem_collectThemes h.parses
  rw [plan, ThemeEnv.findAllThemes, hthm] at he
  obtain rfl | he := mem_cons.1 he
  · exact ⟨_, rfl⟩
  · obtain ⟨x, hx, he⟩ := mem_flatMap.1 he
    have hskin := skin_of_mem_collectThemes hthm hx
    rw [themePlan_of_isObject (h.isObject x.1 (hsub x hx) x.2 hskin)] at he
    split at he
    · next fields hfld =>
      obtain ⟨y, hy, heq⟩ := mem_filterMap.1 he
      have hins : Installed env x.1 y.1 y.2 := ⟨hsub x hx, x.2, fields, hskin, hfld, hy⟩
      obtain ⟨check, hchc⟩ := exists_conditionCheck fun slider least => h.minimum _ _ _ slider least hins
      rw [conditionPlan, hchc] at heq
      cases check with
      | none => cases heq
      | some c => exact ⟨_, (some.inj heq).symm⟩
    · cases he

theorem Installed.mem_places (h : Installed env theme name condition) (htyp : WellTyped env) {check}
    (hchc : conditionCheck condition = .ok (some check)) : .one theme name check ∈ places env := by
  obtain ⟨data, fields, hskin, hfld, hmem⟩ := h.skin
  obtain ⟨themes, hthm, -, hall⟩ := exists_mem_collectThemes htyp.parses
  refine mem_filterMap.2 ⟨.ok (.one theme name check), ?_, rfl⟩
  rw [plan, ThemeEnv.findAllThemes, hthm]
  refine mem_cons_of_mem _ (mem_flatMap.2 ⟨(theme, data), hall theme h.dir data hskin, ?_⟩)
  rw [themePlan_of_isObject (htyp.isObject theme h.dir data hskin)]
  simp only [hfld]
  exact mem_filterMap.2 ⟨(name, condition), hmem, by rw [conditionPlan, hchc]⟩

theorem storedValue_of_not_isObject {conditions} (h : (conditions.getD (.obj [])).isObject = false) :
    storedValue conditions theme name = none := by
  rcases conditions with _ | v
  · rfl
  · cases v with
    | obj fields => cases h
    | _ => rfl

theorem storedValue_fill {ws d}
    (h : ∀ check, .one theme name check ∈ ws → check.fails (storedValue d theme name) = false) :
    storedValue (repairs.fill ws d) theme name = storedValue d theme name := by
  induction ws generalizing d with
  | nil => rfl
  | cons w ws ih =>
    have hrep : storedValue (repairs.repair d w) theme name = storedValue d theme name := by
      rw [Repairs.repair]
      split
      · next hnds =>
        cases w with
        | all => exact (storedValue_of_not_isObject (by simpa [repairs, Place.needs] using hnds)).symm
        | one theme' name' check =>
          by_cases hkey : (theme, name) = (theme', name')
          · cases hkey
            exact absurd hnds (by simp [repairs, Place.needs, h check mem_cons_self])
          · exact storedValue_put_of_ne d check hkey
      · rfl
    rw [Repairs.fill]
    refine (ih fun check hmem => ?_).trans hrep
    rw [hrep]
    exact h check (mem_cons_of_mem w hmem)

theorem Installed.check_eq {check} (h : Installed env theme name condition)
    (hplc : .one theme name check ∈ places env) : conditionCheck condition = .ok (some check) := by
  obtain ⟨data, fields, hskin, hfld, hmem⟩ := h.skin
  obtain ⟨data', fields', condition', horg⟩ := exists_origin hplc
  have hskin' := horg.skin
  cases hskin.symm.trans hskin'
  have hfld' := horg.conditions
  cases hfld.symm.trans hfld'
  rw [eq_of_mem_sortedFields (env.conditions_sorted hskin hfld) hmem horg.mem]
  exact horg.check

/-- With fuel for as many nested calls as there are conditions without a valid value, and two more, the handler ends.  Then all
conditions of the installed themes have a valid value, and those that had one have kept it. -/
theorem activation_completes (env : ThemeEnv) (htyped : WellTyped env) (s : ThemeState) (hobj : s.config.data.isObject = true)
    (hr : s.registry.Consistent) (hactive : ActiveOk s.config.data) (fuel : Nat) (hfuel : s.pending env + 2 ≤ fuel) :
    ∃ out t, (onConfigChangeHdlr env fuel).eval s = some (out, t) ∧ ∀ theme name condition, Installed env theme name condition →
      ValidValue condition (storedValue t.conditions theme name) ∧
        (ValidValue condition (storedValue s.conditions theme name) →
          storedValue t.conditions theme name = storedValue s.conditions theme name) := by
  obtain ⟨out, t, hrun, hcom⟩ := exists_complete htyped.planOk hobj hr hactive hfuel
  refine ⟨out, t, hrun, fun theme name condition h => ?_⟩
  obtain ⟨check, hchc⟩ := exists_conditionCheck fun slider least => htyped.minimum theme name condition slider least h
  rw [conditionCheck_spec hchc, conditionCheck_spec hchc, hcom]
  refine ⟨?_, fun hval => storedValue_fill fun check' hmem => ?_⟩
  · rintro c rfl
    exact (steady_places env).needs_fill _ (h.mem_places htyped hchc)
  · have hchc' := h.check_eq hmem
    rw [hchc] at hchc'
    exact hval check' (Except.ok.inj hchc')

end Installed

theorem wellTyped_sampleThemeEnv : WellTyped sampleThemeEnv where
  parses dir _ what h := by
    simp only [sampleThemeEnv] at h
    split at h <;> cases h
  isObject dir _ data h := by
    simp only [sampleThemeEnv] at h
    split at h <;> cases h
    rfl
  minimum theme name condition slider least h hsld _ := by
    obtain ⟨data, fields, hskin, hfld, hmem⟩ := h.skin
    simp only [sampleThemeEnv] at hskin
    split at hskin <;> cases hskin
    cases hfld
    cases mem_singleton.1 hmem
    cases hsld

theorem activation_completes_sample : ∃ out t,
    (onConfigChangeHdlr sampleThemeEnv 3).eval (sampleThemeState (.obj [])) = some (out, t) ∧
      ValidValue (.obj [(utf8 "values", .obj [(utf8 "yes", .obj [])])]) (storedValue t.conditions (utf8 "t") (utf8 "c")) := by
  obtain ⟨out, t, hrun, hval⟩ := activation_completes sampleThemeEnv wellTyped_sampleThemeEnv (sampleThemeState (.obj [])) rfl
    (by simp [HookRegistry.Consistent, sampleThemeState, noHooks]) (fun v hv => ⟨utf8 "t", (some.inj hv).symm⟩) 3
    (by decide)
  refine ⟨out, t, hrun, (hval _ _ _ ⟨mem_singleton_self _, sampleSkin, _, rfl, rfl, mem_singleton_self _⟩).1⟩

end CloudeLoader.Theme
