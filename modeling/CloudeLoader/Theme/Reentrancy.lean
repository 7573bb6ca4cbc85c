import CloudeLoader.Theme.Registration

/-!
# The handler that is called again

When a default is stored, the handler is called again before it has added the hooks.
-/

namespace CloudeLoader.Theme

open Engine Config ThemeM Command JsonValue List Option

variable (env : ThemeEnv) (a : Bytes)

/-! ### What the calls keep -/

namespace ThemeState

def conditions (s : ThemeState) : Option JsonValue := member s.config.data conditionsKey

def pending (s : ThemeState) : Nat := repairs.pending (places env) s.conditions

end ThemeState

structure Settled (s : ThemeState) : Prop where
  active : member s.config.data activeThemeKey = some (.str a)
  valid : a = defaultTheme ∨ env.isValid a = true
  consistent : s.registry.Consistent

/-- Nothing is thrown in `setup_conditionals` or `start_webkit_hook`, except by saving. -/
structure Sound : Prop where
  plan : ∀ e ∈ plan env, ∃ place, e = .ok place
  theme : ThemeOk env a

structure Ready (s : ThemeState) : Prop extends Settled env a s where
  themeData : s.themeData = themeValue env a
  activeThemeName : s.activeThemeName = a

def Copies (n : Nat) (s : ThemeState) : Prop :=
  s.hooks = (List.replicate n (pass env a s.conditions)).flatten

/-- All conditions have a valid value, and the hooks are in the list, once if nothing was to be stored and otherwise more
often. -/
structure Registered (s t : ThemeState) : Prop where
  conditions : t.conditions = repairs.fill (places env) s.conditions
  copies : ∃ n, Copies env a (n + 1) t ∧ (n = 0 ↔ s.pending env = 0)

structure Returned (s t : ThemeState) : Prop where
  ready : Ready env a t
  pending : t.pending env ≤ s.pending env
  sound : Sound env a
  registered : Registered env a s t

structure Thrown (s t : ThemeState) : Prop where
  ready : Ready env a t
  pending : t.pending env ≤ s.pending env
  registered : Sound env a → t.config.saveToDisk env.io = none ∨ Registered env a s t

/-- The listener ends where fewer than `n` values are to be stored. -/
def Serves (listener : ThemeM Unit) (n : Nat) : Prop :=
  ∀ s, Settled env a s → s.pending env < n → listener.wp False (fun _ => Returned env a s) (Thrown env a s) s

variable {env a} {s t u : ThemeState} {listener : ThemeM Unit} {n : Nat} {place : Place}

theorem Ready.of_data {config} (h : Ready env a s) (hdata : config.data = s.config.data) :
    Ready env a { s with config } :=
  ⟨⟨by rw [hdata]; exact h.active, h.valid, h.consistent⟩, h.themeData, h.activeThemeName⟩

/-! ### The loop of `setup_conditionals` -/

/-- In the loop: nothing was stored yet and nothing had to be, or everything is stored. -/
structure Loop (env : ThemeEnv) (a : Bytes) (s : ThemeState) (rest : List (Except Bytes Place)) (t : ThemeState) : Prop where
  ready : Ready env a t
  pending : t.pending env ≤ s.pending env
  rounds : ∃ pre, plan env = pre ++ rest ∧ (∀ e ∈ pre, ∃ place, e = .ok place) ∧ (Sound env a →
    t.conditions = s.conditions ∧ t.hooks = [] ∧ (∀ place, .ok place ∈ pre → place.needs s.conditions = false) ∨
    t.conditions = repairs.fill (places env) s.conditions ∧ s.pending env ≠ 0 ∧ ∃ n, Copies env a (n + 1) t)

theorem member_assigned_conditions (place : Place) (s : ThemeState) :
    (s.assigned place.names place.last place.value).conditions = place.put s.conditions := by
  cases place with
  | all => exact member_assign_self (by simp [Place.value])
  | one theme name check => exact member_assign_cons

theorem Settled.assigned (h : Settled env a s) (place : Place) : Settled env a (s.assigned place.names place.last place.value) := by
  refine ⟨Eq.trans ?_ h.active, h.valid, h.consistent⟩
  cases place with
  | all => exact member_assign_of_ne (by decide)
  | one theme name check => exact member_assign_of_ne (show activeThemeKey ≠ conditionsKey by decide)

theorem conditions_of_data {config} (hdata : config.data = s.config.data) :
    ({ s with config } : ThemeState).conditions = s.conditions := by
  rw [ThemeState.conditions, hdata]
  rfl

theorem pending_of_conditions (h : t.conditions = s.conditions) : t.pending env = s.pending env := by
  rw [ThemeState.pending, h]
  rfl

theorem Registered.congr (h : Registered env a s t) (hc : u.conditions = s.conditions) : Registered env a u t :=
  ⟨by rw [hc]; exact h.conditions, by rw [pending_of_conditions hc]; exact h.copies⟩

theorem Thrown.congr (h : Thrown env a s t) (hc : u.conditions = s.conditions) : Thrown env a u t :=
  ⟨h.ready, by rw [pending_of_conditions hc]; exact h.pending, fun hs => (h.registered hs).imp id fun hr => hr.congr hc⟩

theorem Returned.thrown (h : Returned env a s t) : Thrown env a s t := ⟨h.ready, h.pending, fun _ => .inr h.registered⟩

theorem places_of_plan {pre rest} (h : plan env = pre ++ .ok place :: rest) :
    places env = pre.filterMap Except.toOption ++ place :: rest.filterMap Except.toOption := by
  rw [places, h, filterMap_append]
  rfl

theorem fill_assigned {pre rest} (hplan : plan env = pre ++ .ok place :: rest)
    (hcon : t.conditions = s.conditions) (hpre : ∀ x, .ok x ∈ pre → x.needs s.conditions = false)
    (hnds : place.needs t.conditions = true) :
    repairs.fill (places env) (t.assigned place.names place.last place.value).conditions =
      repairs.fill (places env) s.conditions := by
  have hstd := steady_places env
  rw [hcon] at hnds
  rw [member_assigned_conditions, hcon]
  rw [places_of_plan hplan] at hstd ⊢
  refine hstd.fill_put ?_ hnds
  intro x hx
  obtain ⟨e, he, hex⟩ := mem_filterMap.1 hx
  cases e with
  | error what => cases hex
  | ok y =>
    obtain rfl : y = x := some.inj hex
    exact hpre y he

theorem wp_mend {rest} (hser : Serves env a listener n)
    (hn : s.pending env ≤ n) (h : Loop env a s (.ok place :: rest) t) :
    (mend env listener place).wp False (fun _ => Loop env a s rest) (Thrown env a s) t := by
  obtain ⟨pre, hplan, hok, hsnd⟩ := h.rounds
  have hmem : place ∈ places env := by simp [places_of_plan hplan]
  have hplan' : plan env = (pre ++ [.ok place]) ++ rest := by rw [hplan, append_assoc, singleton_append]
  have hok' : ∀ e ∈ pre ++ [.ok place], ∃ x, e = .ok x := by
    intro e he
    obtain he | he := mem_append.1 he
    · exact hok e he
    · exact ⟨place, mem_singleton.1 he⟩
  rw [mend, wp_bind, wp_get, wp_only]
  refine ⟨fun hnds => ?_, fun hnot => ?_⟩
  · have hlt : (t.assigned place.names place.last place.value).pending env < t.pending env := by
      rw [ThemeState.pending, member_assigned_conditions]
      exact (steady_places env).pending_put hmem hnds
    have hpen := h.pending
    have hsave : ∀ u, Thrown env a (t.assigned place.names place.last place.value) u →
        (saveToDisk env).wp False (fun _ => Loop env a s rest) (Thrown env a s) u := by
      intro u hu
      have hu' := hu.pending
      refine wp_saveToDisk (fun config hsave hdata => ?_) fun hsave => ⟨hu.ready, by omega, fun _ => .inl hsave⟩
      have hcon := @conditions_of_data u config hdata
      refine ⟨hu.ready.of_data hdata, ?_, pre ++ [.ok place], hplan', hok', fun hs => .inr ?_⟩
      · rw [pending_of_conditions hcon]
        omega
      · have hreg := (hu.registered hs).resolve_left (by simp [hsave])
        obtain ⟨hsame, -, hpre⟩ | ⟨hfill, -⟩ := hsnd hs
        · obtain ⟨m, hm, -⟩ := hreg.copies
          refine ⟨?_, by omega, m, ?_⟩
          · rw [hcon, hreg.conditions, fill_assigned hplan hsame hpre hnds]
          · rw [Copies, hcon]
            exact hm
        · -- nothing is needed where everything is stored
          have hnone := (steady_places env).needs_fill (d := s.conditions) place hmem
          rw [← hfill] at hnone
          exact absurd (hnds.symm.trans hnone) (by simp)
    refine wp_assign place.isPlain_value (settable_of_member h.ready.active) (changes_of_needs place hnds) ?_
    exact wp_mono (hser _ (h.ready.toSettled.assigned place) (by omega)) (fun _ u hu => hsave u hu.thrown) hsave
  · refine ⟨h.ready, h.pending, pre ++ [.ok place], hplan', hok', fun hs => (hsnd hs).imp ?_ id⟩
    rintro ⟨hsame, hhks, hpre⟩
    refine ⟨hsame, hhks, fun x hx => ?_⟩
    obtain hx | hx := mem_append.1 hx
    · exact hpre x hx
    · cases mem_singleton.1 hx
      rw [← hsame]
      exact hnot

structure Filled (env : ThemeEnv) (a : Bytes) (s t : ThemeState) : Prop where
  ready : Ready env a t
  pending : t.pending env ≤ s.pending env
  plan : ∀ e ∈ plan env, ∃ place, e = .ok place
  copies : Sound env a → t.conditions = repairs.fill (places env) s.conditions ∧
    ∃ n, Copies env a n t ∧ (n = 0 ↔ s.pending env = 0)

theorem Loop.filled (h : Loop env a s [] t) : Filled env a s t := by
  obtain ⟨pre, hplan, hok, hsnd⟩ := h.rounds
  rw [append_nil] at hplan
  rw [← hplan] at hok
  refine ⟨h.ready, h.pending, hok, fun hs => ?_⟩
  obtain ⟨hsame, hhks, hpre⟩ | ⟨hfill, hpen, n, hn⟩ := hsnd hs
  · have hnone : ∀ x ∈ places env, repairs.needs s.conditions x = false := by
      intro x hx
      obtain ⟨e, he, hex⟩ := mem_filterMap.1 hx
      obtain ⟨y, rfl⟩ := hok e he
      obtain rfl : y = x := some.inj hex
      exact hpre y (hplan ▸ he)
    refine ⟨by rw [hsame, Repairs.fill_of_not_needs hnone], 0, hhks, ?_⟩
    exact iff_of_true rfl (Repairs.pending_eq_zero.2 hnone)
  · exact ⟨hfill, n + 1, hn, iff_of_false (by omega) hpen⟩

theorem wp_setupConditionals (hser : Serves env a listener n) (hn : s.pending env ≤ n) (hs : Ready env a s)
    (hhks : s.hooks = []) : (setupConditionals env listener).wp False (fun _ => Filled env a s) (Thrown env a s) s := by
  rw [setupConditionals_eq, wp_bind]
  refine wp_mono (wp_forM (I := Loop env a s) ?_ ⟨hs, le_rfl, [], rfl, by simp, ?_⟩) ?_ fun _ h => h
  · intro e rest t hsuf h
    rw [wp_bind]
    cases e with
    | error what =>
      refine ⟨h.ready, h.pending, fun hsnd => ?_⟩
      obtain ⟨place, heq⟩ := hsnd.plan _ (hsuf.subset mem_cons_self)
      cases heq
    | ok place => exact wp_mend hser hn h
  · exact fun _ => .inl ⟨rfl, hhks, by simp⟩
  · intro _ t h
    have hfil := h.filled
    refine wp_saveToDisk (fun config _ hdata => ?_) fun hsave => ⟨h.ready, h.pending, fun _ => .inl hsave⟩
    have hcon := @conditions_of_data t config hdata
    refine ⟨h.ready.of_data hdata, by rw [pending_of_conditions hcon]; exact h.pending, hfil.plan, fun hsnd => ?_⟩
    obtain ⟨hfill, m, hm, hiff⟩ := hfil.copies hsnd
    exact ⟨hcon.trans hfill, m, by rw [Copies, hcon]; exact hm, hiff⟩

/-! ### One call of the handler -/

section Handler

variable {D : Prop} {Q : JsonValue → ThemeState → Prop} {E : ThemeState → Prop}

theorem wp_getActiveTheme (h : member s.config.data activeThemeKey = some (.str a)) (hQ : Q (themeValue env a) s) :
    (getActiveTheme env).wp D Q E s := by
  simp only [getActiveTheme, read_bind, get_member, wp_bind, wp_get, h, getD_some, getString,
    demand_ok, wp_pure]
  rw [themeValue] at hQ
  cases hskin : env.skin a <;> simpa [hskin] using hQ

theorem Ready.of_keeps (h : Ready env a s) (hk : Keeps s t) : Ready env a t :=
  ⟨⟨hk.active.trans h.active, h.valid, hk.registry ▸ h.consistent⟩, hk.themeData.trans h.themeData,
    hk.activeThemeName.trans h.activeThemeName⟩

theorem Ready.of_adds {new} (h : Ready env a s) (hadds : Adds s new t) : Ready env a t :=
  ⟨⟨by rw [hadds.config]; exact h.active, h.valid, hadds.consistent⟩, hadds.themeData.trans h.themeData,
    hadds.activeThemeName.trans h.activeThemeName⟩

theorem Adds.conditions {new} (h : Adds s new t) : t.conditions = s.conditions := by
  rw [ThemeState.conditions, h.config]
  rfl

theorem Registered.of_keeps (h : Registered env a s t) (hk : Keeps t u) : Registered env a s u := by
  obtain ⟨n, hn, hiff⟩ := h.copies
  refine ⟨hk.conditions.trans h.conditions, n, ?_, hiff⟩
  have hhks : u.hooks = t.hooks := by rw [ThemeState.hooks, hk.registry]; rfl
  have hcon : u.conditions = t.conditions := hk.conditions
  rw [Copies, hhks, hcon]
  exact hn

theorem Filled.registered (h : Filled env a s t) (hsnd : Sound env a)
    (hadds : Adds t (pass env a t.conditions) u) : Registered env a s u := by
  obtain ⟨hfill, n, hn, hiff⟩ := h.copies hsnd
  refine ⟨hadds.conditions.trans hfill, n, ?_, hiff⟩
  rw [Copies, hadds.hooks, hadds.conditions, hn, replicate_succ', flatten_append, flatten_singleton]

theorem wp_activate (hser : Serves env a listener n) (hn : s.pending env ≤ n) (hs : Settled env a s) :
    (unregisterAll >>= fun _ => setupThemeHooks env listener).wp False (fun _ => Returned env a s) (Thrown env a s) s := by
  have hemp := hs.consistent.unregisterAll_hookList
  rw [wp_bind, unregisterAll, wp_update, setupThemeHooks, wp_bind]
  refine wp_getActiveTheme hs.active ?_
  simp only [wp_bind, wp_update, read_bind, get_member, wp_get, hs.active, getD_some,
    getString, demand_ok, wp_pure]
  have hrdy : Ready env a { s with
      registry := s.registry.unregisterAll, themeData := themeValue env a, activeThemeName := a } :=
    ⟨⟨hs.active, hs.valid, by intro entry hent; rw [hemp] at hent; cases hent⟩, rfl, rfl⟩
  refine wp_mono (wp_setupConditionals hser hn hrdy ?_) ?_ fun _ h => h.congr rfl
  · rw [ThemeState.hooks, hemp]
    rfl
  · intro _ t ht
    rw [wp_bind, wp_get, wp_bind, ht.ready.themeData, ht.ready.activeThemeName]
    refine wp_mono (wp_startWebkitHook a ht.ready.consistent) ?_ ?_
    · rintro - u ⟨hadds, hok⟩
      have hsnd : Sound env a := ⟨ht.plan, hok⟩
      have hu := ht.ready.of_adds hadds
      have hreg : Registered env a s u := (ht.registered hsnd hadds).congr rfl
      have hpen : u.pending env ≤ s.pending env := (pending_of_conditions hadds.conditions).trans_le ht.pending
      refine wp_mono (wp_setupColors hu.active) ?_ ?_
      · intro _ v hv
        exact ⟨hu.of_keeps hv, (pending_of_conditions hv.conditions).trans_le hpen, hsnd, hreg.of_keeps hv⟩
      · intro v hv
        exact ⟨hu.of_keeps hv, (pending_of_conditions hv.conditions).trans_le hpen, fun _ => .inr (hreg.of_keeps hv)⟩
    · rintro u ⟨⟨new, hadds⟩, hbad⟩
      exact ⟨ht.ready.of_adds hadds, (pending_of_conditions hadds.conditions).trans_le ht.pending, fun h => absurd h.theme hbad⟩

theorem wp_validateTheme_settled {Q : Unit → ThemeState → Prop} (hs : Settled env a s) (hQ : Q () s) :
    (validateTheme env listener).wp D Q E s := by
  have hacc : (decide (a ≠ defaultTheme) && !env.isValid a) = false := by
    obtain rfl | hval := hs.valid
    · simp
    · simp [hval]
  simp only [validateTheme, read_bind, get_member, wp_bind, wp_get, hs.active, getD_some,
    isNull, getString, demand_ok, wp_pure, wp_only, hacc]
  exact ⟨by simp, fun _ => ⟨by simp, fun _ => hQ⟩⟩

/-- By induction on the fuel: each nested call finds fewer values to store. -/
theorem serves_onConfigChangeHdlr (env : ThemeEnv) (a : Bytes) (n : Nat) : Serves env a (onConfigChangeHdlr env n) n := by
  induction n with
  | zero =>
    intro s _ hlt
    omega
  | succ n ih =>
    intro s hs hlt
    rw [onConfigChangeHdlr, wp_bind]
    exact wp_validateTheme_settled hs (wp_activate ih (by omega) hs)

/-! ### The outermost call -/

/-- `validate_theme` writes the name of the default theme. -/
def resets (env : ThemeEnv) (data : JsonValue) : Bool :=
  match member data activeThemeKey with
  | none => true
  | some .null => true
  | some (.str a) => a ≠ defaultTheme && !env.isValid a
  | _ => false

def chosen (env : ThemeEnv) (data : JsonValue) : Option Bytes :=
  match member data activeThemeKey with
  | none => some defaultTheme
  | some .null => some defaultTheme
  | some (.str a) => some (if resets env data then defaultTheme else a)
  | _ => none

structure Validated (env : ThemeEnv) (a : Bytes) (s t : ThemeState) : Prop where
  settled : Settled env a t
  pending : t.pending env ≤ s.pending env
  reset : resets env s.config.data = true → Sound env a → t.conditions = repairs.fill (places env) s.conditions
  same : resets env s.config.data = false → t.conditions = s.conditions

theorem changes_of_resets {data} (h : resets env data = true) :
    changesBy sameValue data [themesKey] activeThemeKey (.str defaultTheme) = true := by
  simp only [changesBy, sameValue, get_member]
  rw [resets] at h
  split at h
  · simp [*]
  · simp [*]
  · simp_all
  · cases h

theorem wp_assign_default (hr : s.registry.Consistent) (hres : resets env s.config.data = true)
    (hser : Serves env defaultTheme listener n) (hn : s.pending env < n) :
    (assign env listener [themesKey] activeThemeKey (.str defaultTheme) false).wp False
      (fun _ => Validated env defaultTheme s) (fun _ => True) s := by
  by_cases hset : settable s.config.data [themesKey] = true
  · have hcon : (s.assigned [themesKey] activeThemeKey (.str defaultTheme)).conditions = s.conditions :=
      member_assign_of_ne (show conditionsKey ≠ activeThemeKey by decide)
    have hstt : Settled env defaultTheme (s.assigned [themesKey] activeThemeKey (.str defaultTheme)) :=
      ⟨member_assign_self (by simp), .inl rfl, hr⟩
    have hsave : ∀ t, Thrown env defaultTheme (s.assigned [themesKey] activeThemeKey (.str defaultTheme)) t →
        (saveToDisk env).wp False (fun _ => Validated env defaultTheme s) (fun _ => True) t := by
      intro t ht
      refine wp_saveToDisk (fun config hsave hdata => ?_) fun _ => trivial
      have hdata' := @conditions_of_data t config hdata
      refine ⟨(ht.ready.of_data hdata).toSettled, ?_, fun _ hsnd => ?_, fun h => absurd hres (by simp [h])⟩
      · rw [pending_of_conditions hdata', ← pending_of_conditions hcon]
        exact ht.pending
      · have hreg := (ht.registered hsnd).resolve_left (by simp [hsave])
        rw [hdata', hreg.conditions, hcon]
    refine wp_assign rfl hset (changes_of_resets hres) ?_
    refine wp_mono (hser _ hstt ?_) (fun _ t ht => hsave t ht.thrown) hsave
    rw [pending_of_conditions hcon]
    exact hn
  · simp only [ThemeM.assign, wp_bind, wp_get, hset]
    trivial

theorem wp_validateTheme (hr : s.registry.Consistent) (hser : Serves env defaultTheme listener n)
    (hn : s.pending env < n) :
    (validateTheme env listener).wp False (fun _ t => ∃ a, chosen env s.config.data = some a ∧ Validated env a s t)
      (fun _ => True) s := by
  have hnull : (member s.config.data activeThemeKey).getD .null = .null → resets env s.config.data = true →
      chosen env s.config.data = some defaultTheme → (validateTheme env listener).wp False
        (fun _ t => ∃ a, chosen env s.config.data = some a ∧ Validated env a s t) (fun _ => True) s := by
    intro hnull hres hchs
    simp only [validateTheme, read_bind, get_member, wp_bind, wp_get, hnull, isNull, wp_only]
    refine ⟨fun _ => wp_mono (wp_assign_default hr hres hser hn) ?_ fun _ h => h, by simp⟩
    intro _ t ht
    simp only [wp_bind, wp_get, ht.settled.active, getD_some, getString, demand_ok,
      wp_pure, wp_only]
    exact ⟨by simp, fun _ => ⟨_, hchs, ht⟩⟩
  cases hm : member s.config.data activeThemeKey with
  | none => exact hnull (by rw [hm]; rfl) (by simp [resets, hm]) (by simp [chosen, hm])
  | some v =>
    cases v with
    | null => exact hnull (by rw [hm]; rfl) (by simp [resets, hm]) (by simp [chosen, hm])
    | str a =>
      have hres : resets env s.config.data = (decide (a ≠ defaultTheme) && !env.isValid a) := by simp [resets, hm]
      have hchs : chosen env s.config.data = some (if resets env s.config.data then defaultTheme else a) := by
        simp only [chosen, hm]
      simp only [validateTheme, read_bind, get_member, wp_bind, wp_get, hm, getD_some, isNull,
        getString, demand_ok, wp_pure, wp_only, ← hres, Bool.false_eq_true, false_imp_iff,
        true_imp_iff, true_and]
      constructor
      · intro h
        rw [hchs, if_pos h]
        exact wp_mono (wp_assign_default hr h hser hn) (fun _ t ht => ⟨_, rfl, ht⟩) fun _ h => h
      · intro h
        rw [hchs, if_neg (by simp [h])]
        refine ⟨a, rfl, ⟨hm, ?_, hr⟩, le_rfl, fun h' => absurd h' (by simp [h]), fun _ => rfl⟩
        rw [hres] at h
        by_cases hdef : a = defaultTheme
        · exact .inl hdef
        · exact .inr (by simpa [hdef] using h)
    | _ =>
      simp only [validateTheme, read_bind, get_member, wp_bind, wp_get, hm, getD_some, isNull,
        getString, demand_error, wp_only, wp_throw]
      simp

end Handler

/-! ### Each hook once -/

def activeHooks (env : ThemeEnv) (data : JsonValue) : List BrowserHook :=
  match member data activeThemeKey with
  | some (.str a) => calledFor env a (member data conditionsKey)
  | _ => []

/-- The list has each hook that the active theme calls for once, and no other. -/
def ExactlyOnce (env : ThemeEnv) (s : ThemeState) : Prop :=
  ∀ hook, s.hooks.count hook = if hook ∈ activeHooks env s.config.data then 1 else 0

def completed (env : ThemeEnv) (data : JsonValue) : Option JsonValue :=
  repairs.fill (places env) (member data conditionsKey)

/-- The theme calls for no hook twice and for none with a pattern that does not compile; and the conditions of the installed themes
have valid values before the change, or the handler is called again for the default theme before that matters, or there is no
hook. -/
def Fits (env : ThemeEnv) (data : JsonValue) : Prop :=
  ∀ a, chosen env data = some a → (calledFor env a (completed env data)).Nodup ∧
    (∀ hook ∈ calledFor env a (completed env data), compiles env hook = true) ∧
    (calledFor env a (completed env data) = [] ∨ resets env data = true ∨
      ∀ place ∈ places env, place.needs (member data conditionsKey) = false)

theorem count_flatten_replicate (xs : List BrowserHook) (n : Nat) (x : BrowserHook) :
    (List.replicate n xs).flatten.count x = n * xs.count x := by
  rw [count_flatten, map_replicate, sum_replicate_nat]

theorem count_copies_iff {p : BrowserHook → Bool} (xs : List BrowserHook) (n : Nat) :
    (∀ x, (List.replicate (n + 1) (xs.takeWhile p)).flatten.count x = if x ∈ xs then 1 else 0) ↔
      xs.Nodup ∧ (∀ x ∈ xs, p x = true) ∧ (xs = [] ∨ n = 0) := by
  simp only [count_flatten_replicate]
  constructor
  · intro h
    have hone : ∀ x ∈ xs, n = 0 ∧ (xs.takeWhile p).count x = 1 := by
      intro x hx
      have hx' := h x
      rw [if_pos hx] at hx'
      exact ⟨Nat.succ_inj.1 (Nat.eq_one_of_mul_eq_one_right hx'), Nat.eq_one_of_mul_eq_one_left hx'⟩
    have hall : ∀ x ∈ xs, p x = true := by
      intro x hx
      have hpos : 0 < (xs.takeWhile p).count x := by
        rw [(hone x hx).2]
        exact Nat.one_pos
      exact mem_takeWhile_imp (count_pos_iff.1 hpos)
    have hself := takeWhile_eq_self_iff.2 hall
    rw [hself] at hone
    refine ⟨nodup_iff_count_eq_one.2 fun x hx => (hone x hx).2, hall, ?_⟩
    cases xs with
    | nil => exact .inl rfl
    | cons x xs => exact .inr (hone x mem_cons_self).1
  · rintro ⟨hnod, hall, hor⟩ x
    rw [takeWhile_eq_self_iff.2 hall, hnod.count]
    obtain rfl | rfl := hor
    · simp
    · simp

theorem pass_eq_takeWhile (hok : ThemeOk env a) (conditions : Option JsonValue) :
    pass env a conditions = (calledFor env a conditions).takeWhile (compiles env) := by
  rw [pass, calledFor]
  cases hskin : env.skin a with
  | valid data =>
    refine (takeWhile_append_of_pos ?_).symm
    intro hook hhook
    obtain ⟨x, hx, hmem⟩ := mem_filterMap.1 hhook
    rw [memberHook] at hmem
    split at hmem <;> cases hmem
    next item hfld =>
    simp [compiles, hookAt, (hok data hskin x hx _ hfld).2]
  | _ => rfl

theorem Returned.outermost (hv : Validated env a s t) (h : Returned env a t u) :
    u.conditions = completed env s.config.data ∧ ∃ n, Copies env a (n + 1) u ∧ (n = 0 ↔ resets env s.config.data = true ∨
      ∀ place ∈ places env, place.needs (member s.config.data conditionsKey) = false) := by
  obtain ⟨n, hn, hiff⟩ := h.registered.copies
  rw [h.registered.conditions]
  cases hres : resets env s.config.data with
  | true =>
    have hfill := hv.reset hres h.sound
    have hnone : ∀ x ∈ places env, repairs.needs t.conditions x = false := by
      rw [hfill]
      exact (steady_places env).needs_fill
    refine ⟨(Repairs.fill_of_not_needs hnone).trans hfill, n, hn, ?_⟩
    exact iff_of_true (hiff.2 (Repairs.pending_eq_zero.2 hnone)) (.inl rfl)
  | false =>
    have hsame := hv.same hres
    rw [hsame]
    refine ⟨rfl, n, hn, ?_⟩
    rw [hiff, pending_of_conditions hsame, ThemeState.pending, Repairs.pending_eq_zero]
    exact ⟨.inr, fun h => h.resolve_left (by simp)⟩

/-- Whatever themes are installed and whatever is stored: the outermost call of the handler ends, and if it returns, the list has
each hook that the active theme calls for once and no other, if and only if the condition holds. -/
theorem exactlyOnce_iff (env : ThemeEnv) (s : ThemeState) (hr : s.registry.Consistent) (fuel : Nat)
    (hfuel : s.pending env + 2 ≤ fuel) :
    ∃ out t, (onConfigChangeHdlr env fuel).eval s = some (out, t) ∧
      (out = .ok () → (ExactlyOnce env t ↔ Fits env s.config.data)) := by
  obtain ⟨n, rfl⟩ : ∃ n, fuel = n + 1 := ⟨fuel - 1, by omega⟩
  have hser := fun a => serves_onConfigChangeHdlr env a n
  have hwp : (onConfigChangeHdlr env (n + 1)).wp False (fun _ t => ∃ a v, chosen env s.config.data = some a ∧
      Validated env a s v ∧ Returned env a v t) (fun _ => True) s := by
    rw [onConfigChangeHdlr, wp_bind]
    refine wp_mono (wp_validateTheme hr (hser defaultTheme) (by omega)) ?_ fun _ h => h
    rintro - v ⟨a, hchs, hv⟩
    have hpen := hv.pending
    refine wp_mono (wp_activate (hser a) (by omega) hv.settled) ?_ fun _ _ => trivial
    exact fun _ t ht => ⟨a, v, hchs, hv, ht⟩
  obtain ⟨out, t, hrun⟩ := exists_of_wp hwp
  refine ⟨out, t, hrun, ?_⟩
  rintro rfl
  obtain ⟨a, v, hchs, hv, ht⟩ := of_wp hwp hrun
  obtain ⟨hcon, m, hm, hiff⟩ := ht.outermost hv
  have hact : activeHooks env t.config.data = calledFor env a (completed env s.config.data) := by
    rw [activeHooks, ht.ready.active, ← hcon]
    rfl
  have hfits : Fits env s.config.data ↔ (calledFor env a (completed env s.config.data)).Nodup ∧
      (∀ hook ∈ calledFor env a (completed env s.config.data), compiles env hook = true) ∧
      (calledFor env a (completed env s.config.data) = [] ∨ m = 0) := by
    simp only [Fits, hchs, some.injEq, forall_eq', hiff]
  rw [hfits, ← count_copies_iff, ExactlyOnce, hact, hm, hcon, pass_eq_takeWhile ht.sound.theme]

def sampleSkin : JsonValue :=
  .obj [(utf8 "Conditions", .obj [(utf8 "c", .obj [(utf8 "values", .obj [(utf8 "yes", .obj [])])])]),
    (utf8 "webkitCSS", .str (utf8 "a.css"))]

def sampleThemeEnv : ThemeEnv where
  browser := sampleBrowserEnv
  cloudePath := utf8 "/c"
  dirs := [utf8 "t"]
  skin name := if name = utf8 "t" then .valid sampleSkin else .missing
  parseRootColors _ := .ok []
  convertFromHex _ _ := .ok none
  cmp := .same
  io := ⟨true, true, true⟩
  conditions_sorted := by
    intro name data fields hskin hfields
    split at hskin <;> cases hskin
    cases hfields
    exact pairwise_singleton _ _

def sampleThemeState (conditions : JsonValue) : ThemeState where
  config := ⟨.obj [(themesKey, .obj [(activeThemeKey, .str (utf8 "t")), (conditionsKey, conditions)])], .obj [], true, none⟩
  registry := noHooks
  themeData := .null
  activeThemeName := []

theorem exactlyOnce_stored : ∃ t, (onConfigChangeHdlr sampleThemeEnv 2).eval
      (sampleThemeState (.obj [(utf8 "t", .obj [(utf8 "c", .str (utf8 "yes"))])])) = some (.ok (), t) ∧
    ExactlyOnce sampleThemeEnv t := by
  obtain ⟨out, t, hrun, hiff⟩ := exactlyOnce_iff sampleThemeEnv
    (sampleThemeState (.obj [(utf8 "t", .obj [(utf8 "c", .str (utf8 "yes"))])]))
    (by simp [HookRegistry.Consistent, sampleThemeState, noHooks]) 2 (by decide)
  obtain rfl : .ok () = out := Option.some.inj (congrArg (Option.map Prod.fst) hrun)
  refine ⟨t, hrun, (hiff rfl).2 ?_⟩
  intro a ha
  obtain rfl : utf8 "t" = a := Option.some.inj ha
  exact ⟨by decide, by decide, .inr (.inr (by decide))⟩

theorem hook_twice : ∃ t, (onConfigChangeHdlr sampleThemeEnv 3).eval (sampleThemeState (.obj [])) = some (.ok (), t) ∧
    ¬ ExactlyOnce sampleThemeEnv t := by
  refine ⟨_, rfl, fun h => ?_⟩
  have htwc := h (hookAt sampleThemeEnv (utf8 "/c/themes/t/a.css") (utf8 ".*") .stylesheet)
  revert htwc
  decide

end CloudeLoader.Theme
