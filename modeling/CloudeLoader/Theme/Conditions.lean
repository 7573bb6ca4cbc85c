import CloudeLoader.Lib.Repairs
import CloudeLoader.Theme.Hooks

/-!
# The stored conditions

`setup_conditionals` goes through all conditions of all installed themes and stores the default of those without a valid
value.
-/

namespace CloudeLoader.Theme

open Engine Config ThemeM List
open Command (demand guarded only update)

/-! ### A member of `themes` -/

def member (data : JsonValue) (k : Bytes) : Option JsonValue := (data.field? themesKey).bind (·.field? k)

section Member

variable {data value default : JsonValue} {k last name : Bytes} {names : List Bytes}

theorem get_member : Config.get data [themesKey] k default = (member data k).getD default := by
  rw [Config.get, member]
  cases data.field? themesKey with
  | none => rfl
  | some v => rfl

theorem get_member_child :
    Config.get data [themesKey, k] name default = ((member data k).bind (·.field? name)).getD default := by
  rw [Config.get, member]
  cases data.field? themesKey with
  | none => rfl
  | some v =>
    cases h : v.field? k with
    | none => simp [Config.get, h]
    | some w => simp [Config.get, h]

theorem field?_assign_cons : (assignBy sameValue data (k :: names) last value).field? k =
    some (assignBy sameValue (child data k) names last value) := by
  rw [assignBy, JsonValue.field?_setField, if_pos rfl]

theorem field?_assign_nil (hval : value ≠ .null) : (assignBy sameValue data [] last value).field? last = some value := by
  rw [assignBy, field?_putMemberBy_self hval tells_sameValue]

theorem field?_child_themes : (child data themesKey).field? k = member data k := by
  rw [field?_child, member]
  cases data.field? themesKey <;> rfl

theorem member_assign_of_ne (h : k ≠ names.headD last) :
    member (assignBy sameValue data (themesKey :: names) last value) k = member data k := by
  rw [member, field?_assign_cons, Option.bind_some, field?_assignBy_ne h, field?_child_themes]

theorem member_assign_self (hval : value ≠ .null) : member (assignBy sameValue data [themesKey] last value) last = some value := by
  rw [member, field?_assign_cons, Option.bind_some, field?_assign_nil hval]

def asFields (v : Option JsonValue) : JsonValue := (v.filter JsonValue.isObject).getD (.obj [])

theorem child_child : child (child data themesKey) k = asFields (member data k) := by
  rw [child, field?_child_themes, asFields]

theorem member_assign_cons :
    member (assignBy sameValue data (themesKey :: k :: names) last value) k =
      some (assignBy sameValue (asFields (member data k)) names last value) := by
  rw [member, field?_assign_cons, Option.bind_some, field?_assign_cons, child_child]

theorem settable_of_member (h : member data k = some value) : settable data names = true := by
  obtain ⟨v, hv, -⟩ := Option.bind_eq_some_iff.1 h
  simp [settable, isObject_of_field? hv]

theorem isObject_assign : (assignBy sameValue data (k :: names) last value).isObject = true := by
  cases data <;> rfl

end Member

/-! ### The places -/

/-- Where `setup_conditionals` may write: all conditions at once, or one of a theme. -/
inductive Place where
  | all
  | one (theme name : Bytes) (check : Check)

def storedValue (conditions : Option JsonValue) (theme name : Bytes) : Option JsonValue :=
  ((conditions.bind (·.field? theme)).getD (.obj [])).field? name

namespace Place

def needs (conditions : Option JsonValue) : Place → Bool
  | all => !(conditions.getD (.obj [])).isObject
  | one theme name check => check.fails (storedValue conditions theme name)

def put (conditions : Option JsonValue) : Place → Option JsonValue
  | all => some (.obj [])
  | one theme name check => some (assignBy sameValue (asFields conditions) [theme] name (.str check.default))

def names : Place → List Bytes
  | all => [themesKey]
  | one theme _ _ => [themesKey, conditionsKey, theme]

def last : Place → Bytes
  | all => conditionsKey
  | one _ name _ => name

def value : Place → JsonValue
  | all => .obj []
  | one _ _ check => .str check.default

theorem isPlain_value : ∀ place : Place, place.value.isPlain = true
  | all => rfl
  | one _ _ _ => rfl

def key : Place → Option (Bytes × Bytes)
  | all => none
  | one theme name _ => some (theme, name)

end Place

def repairs : Repairs (Option JsonValue) Place := ⟨Place.needs, Place.put⟩

variable {theme name : Bytes}

theorem Check.fails_default (check : Check) : check.fails (some (.str check.default)) = false := by
  rw [Check.fails]
  cases hv : check.values with
  | none => rfl
  | some fields =>
    have hmem := check.default_mem fields hv
    rw [Option.any_some, Option.isNone_eq_false_iff]
    exact hmem

theorem storedValue_put_self (conditions : Option JsonValue) (check : Check) :
    storedValue (Place.put conditions (.one theme name check)) theme name = some (.str check.default) := by
  simp only [storedValue, Place.put, Option.bind_some, field?_assign_cons, Option.getD_some]
  exact field?_assign_nil (by simp)

theorem storedValue_asFields (conditions : Option JsonValue) (theme name : Bytes) :
    storedValue (some (asFields conditions)) theme name = storedValue conditions theme name := by
  rcases conditions with _ | v
  · rfl
  · cases v <;> rfl

theorem storedValue_put_of_ne {theme' name'} (conditions : Option JsonValue) (check : Check)
    (h : (theme', name') ≠ (theme, name)) :
    storedValue (Place.put conditions (.one theme name check)) theme' name' = storedValue conditions theme' name' := by
  rw [← storedValue_asFields conditions]
  simp only [storedValue, Place.put, Option.bind_some]
  by_cases hthm : theme' = theme
  · subst hthm
    have hname : name' ≠ name := fun heq => h (by rw [heq])
    rw [field?_assign_cons, Option.getD_some, field?_assignBy_ne (by simpa using hname), field?_child]
  · rw [field?_assignBy_ne (by simpa using hthm)]

theorem fails_of_not_isObject (check : Check) {conditions} (theme name : Bytes)
    (h : (conditions.getD (.obj [])).isObject = false) : check.fails (storedValue conditions theme name) = true := by
  rcases conditions with _ | v
  · exact absurd h (by simp [JsonValue.isObject])
  · cases v with
    | obj fields => exact absurd h (by simp [JsonValue.isObject])
    | _ => rfl

theorem changes_of_needs {data} (place : Place) (h : place.needs (member data conditionsKey) = true) :
    changesBy sameValue data place.names place.last place.value = true := by
  cases place with
  | all =>
    simp only [Place.names, Place.last, Place.value, changesBy, sameValue, get_member]
    cases hm : member data conditionsKey with
    | none => simp
    | some v =>
      cases v <;> simp_all [Place.needs, JsonValue.isObject]
  | one theme name check =>
    simp only [Place.names, Place.last, Place.value, changesBy, sameValue, ← get_child, child_child]
    simp only [Config.get, field?_child]
    rw [Place.needs, ← storedValue_asFields] at h
    simp only [storedValue, Option.bind_some] at h
    cases hstr : (((asFields (member data conditionsKey)).field? theme).getD (.obj [])).field? name with
    | none => simp
    | some v =>
      rw [hstr] at h
      simp only [Option.getD_some, Bool.not_eq_true', decide_eq_false_iff_not]
      rintro rfl
      rw [check.fails_default] at h
      cases h

theorem steady_of_key {places} (h : ∀ w ∈ places, ∀ x ∈ places, x.key = w.key → x = w) : repairs.Steady places := by
  intro conditions w hw hnds x hx hor
  simp only [repairs] at hnds hor ⊢
  cases w with
  | all =>
    cases x with
    | all => rfl
    | one theme name check =>
      have hobj : (conditions.getD (.obj [])).isObject = false := by simpa [Place.needs] using hnds
      obtain heq | hnot := hor
      · cases heq
      · rw [Place.needs, fails_of_not_isObject check theme name hobj] at hnot
        exact absurd hnot (by simp)
  | one theme name check =>
    cases x with
    | all => simp [Place.needs, Place.put, isObject_assign]
    | one theme' name' check' =>
      by_cases hkey : (theme', name') = (theme, name)
      · cases h _ hw _ hx (congrArg some hkey)
        rw [Place.needs, storedValue_put_self]
        exact check.fails_default
      · obtain heq | hnot := hor
        · cases heq
          exact absurd rfl hkey
        · rw [Place.needs, storedValue_put_of_ne conditions check hkey]
          exact hnot

/-! ### One loop over the places -/

def conditionPlan (theme : Bytes) (x : Bytes × JsonValue) : Option (Except Bytes Place) :=
  match conditionCheck x.2 with
  | .error what => some (.error what)
  | .ok none => none
  | .ok (some check) => some (.ok (.one theme x.1 check))

def themePlan (theme : Bytes × JsonValue) : List (Except Bytes Place) :=
  match theme.2.valueOf (fun v => .ok v) (utf8 "Conditions") (.obj []) with
  | .error what => [.error what]
  | .ok (.obj conditions) => conditions.filterMap (conditionPlan theme.1)
  | .ok _ => []

def plan (env : ThemeEnv) : List (Except Bytes Place) :=
  .ok .all :: match env.findAllThemes with
    | .error what => [.error what]
    | .ok themes => themes.flatMap themePlan

def mend (env : ThemeEnv) (listener : ThemeM Unit) (place : Place) : ThemeM Unit := do
  let s ← get
  only (place.needs (member s.config.data conditionsKey)) (assign env listener place.names place.last place.value false)

variable {env : ThemeEnv} {listener : ThemeM Unit}

theorem read_bind {α : Type} {names last default} {f : JsonValue → ThemeM α} :
    (ThemeM.read names last default >>= f) = get >>= fun s => f (Config.get s.config.data names last default) := by
  simp only [ThemeM.read, bind_assoc, pure_bind]

theorem setupCondition_eq (theme : Bytes) (x : Bytes × JsonValue) : setupCondition env listener theme x =
    forM (conditionPlan theme x).toList fun e => demand e >>= mend env listener := by
  rw [setupCondition, conditionPlan]
  rcases conditionCheck x.2 with what | _ | check
  · simp
  · simp
  · simp only [Command.demand_ok, pure_bind, read_bind, get_member_child, Option.toList_some, forM_cons, forM_nil]
    exact (bind_pure_unit).symm

theorem forM_filterMap {α β : Type} (f : α → Option β) (g : β → ThemeM Unit) (xs : List α) :
    forM (xs.filterMap f) g = forM xs fun x => forM (f x).toList g := by
  induction xs with
  | nil => rfl
  | cons x xs ih =>
    rw [forM_cons, ← ih]
    cases h : f x with
    | none => simp [h]
    | some y => simp [h]

theorem forM_flatMap {α β : Type} (f : α → List β) (g : β → ThemeM Unit) (xs : List α) :
    forM (xs.flatMap f) g = forM xs fun x => forM (f x) g := by
  induction xs with
  | nil => rfl
  | cons x xs ih => rw [flatMap_cons, forM_append, forM_cons, ih]

theorem setupThemeConditions_eq (theme : Bytes × JsonValue) : setupThemeConditions env listener theme =
    forM (themePlan theme) fun e => demand e >>= mend env listener := by
  rw [setupThemeConditions, themePlan]
  cases theme.2.valueOf (fun v => .ok v) (utf8 "Conditions") (.obj []) with
  | error what => simp
  | ok conditions =>
    cases conditions with
    | obj fields =>
      simp only [Command.demand_ok, pure_bind, forM_filterMap]
      congr 1
      funext x
      exact setupCondition_eq theme.1 x
    | _ => rfl

theorem setupConditionals_eq : setupConditionals env listener =
    (forM (plan env) fun e => demand e >>= mend env listener) >>= fun _ => saveToDisk env := by
  have hloop : ∀ themes : List (Bytes × JsonValue), (forM (themes.flatMap themePlan) fun e => demand e >>= mend env listener) =
      forM themes (setupThemeConditions env listener) := by
    intro themes
    rw [forM_flatMap]
    congr 1
    funext theme
    exact (setupThemeConditions_eq theme).symm
  rw [setupConditionals, plan, forM_cons]
  cases env.findAllThemes with
  | error what =>
    simp [read_bind, get_member, mend, Place.needs, Place.names, Place.last, Place.value]
  | ok themes =>
    rw [hloop]
    simp only [read_bind, get_member, Command.demand_ok, pure_bind, mend, bind_assoc]
    rfl

/-! ### The places are apart -/

def places (env : ThemeEnv) : List Place := (plan env).filterMap Except.toOption

theorem skin_of_mem_collectThemes {dirs themes}
    (h : env.collectThemes dirs = .ok themes) {theme} (hmem : theme ∈ themes) :
    env.skin theme.1 = .valid theme.2 := by
  induction dirs generalizing themes with
  | nil =>
    cases h
    cases hmem
  | cons dir dirs ih =>
    rw [ThemeEnv.collectThemes] at h
    cases hskin : env.skin dir with
    | missing =>
      rw [hskin] at h
      exact ih h hmem
    | locked =>
      rw [hskin] at h
      exact ih h hmem
    | invalid what =>
      rw [hskin] at h
      cases h
    | valid data =>
      rw [hskin] at h
      cases hrest : env.collectThemes dirs with
      | error what =>
        rw [hrest] at h
        cases h
      | ok rest =>
        rw [hrest] at h
        cases h
        obtain rfl | hmem := mem_cons.1 hmem
        · exact hskin
        · exact ih hrest hmem

structure Origin (env : ThemeEnv) (theme name : Bytes) (check : Check) (data : JsonValue) (fields : List (Bytes × JsonValue))
    (condition : JsonValue) : Prop where
  skin : env.skin theme = .valid data
  conditions : data.field? (utf8 "Conditions") = some (.obj fields)
  mem : (name, condition) ∈ fields
  check : conditionCheck condition = .ok (some check)

theorem ok_of_mem_conditionPlan {x place} (h : conditionPlan theme x = some (.ok place)) :
    ∃ check, conditionCheck x.2 = .ok (some check) ∧ place = .one theme x.1 check := by
  rw [conditionPlan] at h
  rcases hchc : conditionCheck x.2 with what | _ | check
  · rw [hchc] at h
    cases h
  · rw [hchc] at h
    cases h
  · rw [hchc] at h
    cases h
    exact ⟨check, rfl, rfl⟩

theorem mem_themePlan {x place} (h : .ok place ∈ themePlan x) :
    ∃ fields name condition check, x.2.field? (utf8 "Conditions") = some (.obj fields) ∧ (name, condition) ∈ fields ∧
      conditionCheck condition = .ok (some check) ∧ place = .one x.1 name check := by
  rw [themePlan, JsonValue.valueOf] at h
  by_cases hobj : x.2.isObject = true
  · rw [if_pos hobj] at h
    cases hfld : x.2.field? (utf8 "Conditions") with
    | none =>
      rw [hfld] at h
      cases h
    | some v =>
      rw [hfld] at h
      cases v with
      | obj fields =>
        obtain ⟨y, hy, hplan⟩ := mem_filterMap.1 h
        obtain ⟨check, hchc, rfl⟩ := ok_of_mem_conditionPlan hplan
        exact ⟨fields, y.1, y.2, check, rfl, hy, hchc, rfl⟩
      | _ => cases h
  · rw [if_neg hobj] at h
    simp at h

theorem exists_origin {name check} (h : .one theme name check ∈ places env) :
    ∃ data fields condition, Origin env theme name check data fields condition := by
  obtain ⟨e, he, hplc⟩ := mem_filterMap.1 h
  cases e with
  | error what => cases hplc
  | ok place =>
    obtain rfl : place = .one theme name check := Option.some.inj hplc
    rw [plan] at he
    cases hfind : env.findAllThemes with
    | error what =>
      rw [hfind] at he
      simp at he
    | ok themes =>
      rw [hfind] at he
      obtain heq | hmem := mem_cons.1 he
      · cases heq
      · obtain ⟨x, hx, hplan⟩ := mem_flatMap.1 hmem
        obtain ⟨fields, name', condition, check', hfld, hcon, hchc, heq⟩ := mem_themePlan hplan
        cases heq
        exact ⟨x.2, fields, condition, skin_of_mem_collectThemes hfind hx, hfld, hcon, hchc⟩

theorem eq_of_mem_sortedFields {fields} (h : JsonValue.SortedFields fields) {k}
    {v w} (hv : (k, v) ∈ fields) (hw : (k, w) ∈ fields) : v = w := by
  induction fields with
  | nil => cases hv
  | cons x fields ih =>
    obtain ⟨hlt, hrest⟩ := pairwise_cons.1 h
    obtain rfl | hv' := mem_cons.1 hv
    · obtain heq | hw' := mem_cons.1 hw
      · exact (Prod.mk.inj heq).2.symm
      · exact absurd (hlt _ hw') (List.lt_irrefl k)
    · obtain rfl | hw' := mem_cons.1 hw
      · exact absurd (hlt _ hv') (List.lt_irrefl k)
      · exact ih hrest hv' hw'

theorem steady_places (env : ThemeEnv) : repairs.Steady (places env) := by
  refine steady_of_key ?_
  intro w hw x hx hkey
  cases w with
  | all =>
    cases x with
    | all => rfl
    | one theme name check => cases hkey
  | one theme name check =>
    cases x with
    | all => cases hkey
    | one theme' name' check' =>
      cases hkey
      obtain ⟨data, fields, condition, h⟩ := exists_origin hw
      obtain ⟨data', fields', condition', h'⟩ := exists_origin hx
      cases h.skin.symm.trans h'.skin
      cases h.conditions.symm.trans h'.conditions
      cases eq_of_mem_sortedFields (env.conditions_sorted h.skin h.conditions) h.mem h'.mem
      cases h.check.symm.trans h'.check
      rfl

end CloudeLoader.Theme
