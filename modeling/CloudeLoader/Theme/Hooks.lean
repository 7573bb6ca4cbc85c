import CloudeLoader.Config.Store
import CloudeLoader.Engine.BrowserModules
import CloudeLoader.Lib.Command

/-!
# Hooks of themes (`theme_cfg.cc`, `webkit.cc`, `scan.cc`)

When the configuration changes, `on_config_change_hdlr` makes sure that the active theme is there, removes all hooks,
stores the defaults of the conditions of all installed themes that have no valid value, and adds the hooks that the active
theme calls for.
-/

namespace CloudeLoader.Theme

open Engine Config

/-! ### What the handler works with -/

inductive SkinFile where
  | missing
  | locked
  | invalid (what : Bytes)
  | valid (data : JsonValue)

/-- What the handler works with.  A `valid` file is one JSON text and nothing more, which only `IsValid` insists on: the
other reads also take a text that has something behind it.  All saves of one activation end alike, as `io` says. -/
structure ThemeEnv where
  browser : BrowserEnv
  cloudePath : Bytes
  dirs : List Bytes
  skin : Bytes → SkinFile
  parseRootColors : Bytes → Except Bytes (List JsonValue)
  convertFromHex : Bytes → Int → Except Bytes (Option Bytes)
  cmp : Comparison
  io : SaveIo
  conditions_sorted : ∀ {name data fields}, skin name = .valid data → data.field? (utf8 "Conditions") = some (.obj fields) →
    JsonValue.SortedFields fields

structure ThemeState where
  config : ConfigManager
  registry : HookRegistry
  themeData : JsonValue
  activeThemeName : Bytes

abbrev ThemeM := Command Bytes ThemeState

open Command (demand guarded only update)

variable (env : ThemeEnv)

namespace ThemeM

def read (names : List Bytes) (last : Bytes) (default : JsonValue) : ThemeM JsonValue := do
  let s ← get
  pure (Config.get s.config.data names last default)

def saveToDisk : ThemeM Unit := do
  let s ← get
  match s.config.saveToDisk env.io with
  | none => throw (JsonValue.typeError 316 "invalid UTF-8 byte")
  | some config => update fun s => { s with config }

def putData (data : JsonValue) : ThemeM Unit := update fun s => { s with config := { s.config with data } }

def assign (listener : ThemeM Unit) (names : List Bytes) (last : Bytes) (value : JsonValue)
    (skipPropagation : Bool) : ThemeM Unit := do
  let s ← get
  if settable s.config.data names then
    putData (assignBy env.cmp.equal s.config.data names last value)
    only (changesBy env.cmp.equal s.config.data names last value && !skipPropagation) do
      guarded listener
      saveToDisk env
  else throw (JsonValue.typeError 305 ("cannot use operator[] with a string argument with " ++ s.config.data.typeName))

end ThemeM

open ThemeM

def themesKey : Bytes := utf8 "themes"

def conditionsKey : Bytes := utf8 "conditions"

def activeThemeKey : Bytes := utf8 "activeTheme"

def themeColorsKey : Bytes := utf8 "themeColors"

def defaultTheme : Bytes := utf8 "default"

namespace ThemeEnv

def themesPath : Bytes := joinPath env.cloudePath (utf8 "themes")

def isValid (name : Bytes) : Bool :=
  match env.skin name with
  | .valid _ => true
  | _ => false

def collectThemes (env : ThemeEnv) : List Bytes → Except Bytes (List (Bytes × JsonValue))
  | [] => .ok []
  | dir :: dirs =>
    match env.skin dir with
    | .missing => env.collectThemes dirs
    | .locked => env.collectThemes dirs
    | .invalid what => .error what
    | .valid data => (env.collectThemes dirs).map ((dir, data) :: ·)

def findAllThemes : Except Bytes (List (Bytes × JsonValue)) := env.collectThemes env.dirs

end ThemeEnv

def validateTheme (listener : ThemeM Unit) : ThemeM Unit := do
  let stored ← read [themesKey] activeThemeKey .null
  only stored.isNull (assign env listener [themesKey] activeThemeKey (.str defaultTheme) false)
  let active ← demand (← read [themesKey] activeThemeKey .null).getString
  only (active ≠ defaultTheme && !env.isValid active)
    (assign env listener [themesKey] activeThemeKey (.str defaultTheme) false)

def getActiveTheme : ThemeM JsonValue := do
  let active ← demand (← read [themesKey] activeThemeKey .null).getString
  match env.skin active with
  | .valid data => pure (.obj [(utf8 "data", data), (utf8 "native", .str active)])
  | _ => pure (.obj [(utf8 "failed", .bool true)])

/-! ### Conditions -/

/-- A condition with its default.  One that is not a slider has a list of values, and the default is one of them. -/
structure Check where
  default : Bytes
  values : Option (List (Bytes × JsonValue))
  default_mem : ∀ fields, values = some fields → (fields.lookup default).isSome

def sliderDefault (condition slider : JsonValue) : Except Bytes Bytes :=
  let minimum :=
    match slider.field? (utf8 "min") with
    | some min => min.getInt.map fun n => utf8 (toString n)
    | none => .ok (utf8 "0")
  match condition.field? (utf8 "default") with
  | some (.str s) => .ok s
  | some (.num q) => (JsonValue.num q).getInt.map fun n => utf8 (toString n)
  | _ => minimum

def valuesDefault (condition : JsonValue) (values : List (Bytes × JsonValue)) (first : Bytes) : Bytes :=
  let default :=
    match condition.field? (utf8 "default") with
    | some (.str s) => s
    | _ => first
  if (values.lookup default).isSome then default else first

theorem valuesDefault_mem (condition : JsonValue) (x : Bytes × JsonValue) (rest : List (Bytes × JsonValue)) :
    ((x :: rest).lookup (valuesDefault condition (x :: rest) x.1)).isSome := by
  dsimp only [valuesDefault]
  generalize (match condition.field? (utf8 "default") with
    | some (.str s) => s
    | _ => x.1) = default
  split
  · assumption
  · simp

def conditionCheck (condition : JsonValue) : Except Bytes (Option Check) :=
  match condition.field? (utf8 "slider"), condition.field? (utf8 "values") with
  | some (.obj slider), _ => (sliderDefault condition (.obj slider)).map fun default => some ⟨default, none, by simp⟩
  | _, some (.obj (x :: rest)) =>
    .ok (some ⟨valuesDefault condition (x :: rest) x.1, some (x :: rest), by
      rintro _ ⟨⟩
      exact valuesDefault_mem condition x rest⟩)
  | _, _ => .ok none

def Check.fails (check : Check) (stored : Option JsonValue) : Bool :=
  match stored with
  | some (.str value) => check.values.any fun fields => (fields.lookup value).isNone
  | _ => true

def setupCondition (listener : ThemeM Unit) (themeName : Bytes) (x : Bytes × JsonValue) : ThemeM Unit := do
  match ← demand (conditionCheck x.2) with
  | none => pure ()
  | some check =>
    let currentConditions ← read [themesKey, conditionsKey] themeName (.obj [])
    only (check.fails (currentConditions.field? x.1))
      (assign env listener [themesKey, conditionsKey, themeName] x.1 (.str check.default) false)

def setupThemeConditions (listener : ThemeM Unit) (theme : Bytes × JsonValue) : ThemeM Unit := do
  match ← demand (theme.2.valueOf (fun v => .ok v) (utf8 "Conditions") (.obj [])) with
  | .obj conditions => forM conditions (setupCondition env listener theme.1)
  | _ => pure ()

def setupConditionals (listener : ThemeM Unit) : ThemeM Unit := do
  let conditions ← read [themesKey] conditionsKey (.obj [])
  only (!conditions.isObject) (assign env listener [themesKey] conditionsKey (.obj []) false)
  let themes ← demand env.findAllThemes
  forM themes (setupThemeConditions env listener)
  saveToDisk env

/-! ### Hooks -/

structure WebkitItem where
  matchPattern : Bytes
  path : Bytes
  fileType : Bytes

def strings (xs : List JsonValue) : List Bytes := xs.filterMap fun x => x.getString.toOption

def controlFlowItems (x : Bytes × JsonValue) : List WebkitItem :=
  match x.2.field? (utf8 "affects"), x.2.field? (utf8 "src") with
  | some (.arr affects), some (.str src) => (strings affects).map fun pattern => ⟨pattern, src, x.1⟩
  | _, _ => []

def conditionItems (themeConditions : JsonValue) (x : Bytes × JsonValue) : List WebkitItem :=
  match themeConditions.field? x.1 with
  | some (.str currentValue) =>
    match (x.2.field? (utf8 "values")).bind (·.field? currentValue) with
    | some (.obj fields) => fields.flatMap controlFlowItems
    | _ => []
  | _ => []

def patchTargets : JsonValue → List Bytes
  | .str s => [s]
  | .arr xs => strings xs
  | .obj fields => strings (fields.map (·.2))
  | _ => []

def patchItems (patch : JsonValue) : Except Bytes (List WebkitItem) :=
  match patch.field? (utf8 "MatchRegexString") with
  | none => .ok []
  | some regex => regex.getString.map fun regex =>
    [utf8 "TargetCss", utf8 "TargetJs"].flatMap fun injectType =>
      ((patch.field? injectType).map patchTargets).getD [] |>.map fun target => ⟨regex, target, injectType⟩

def uniqueItems : List Bytes → List WebkitItem → List WebkitItem
  | _, [] => []
  | seen, item :: items =>
    let identifier := item.matchPattern ++ utf8 "|" ++ item.path
    if seen.contains identifier then uniqueItems seen items else item :: uniqueItems (identifier :: seen) items

def parseConditionalData (conditionalPatches themeConditions : JsonValue) : Except Bytes (List WebkitItem) := do
  let conditions := ((conditionalPatches.field? (utf8 "Conditions")).map ConfigManager.items).getD []
  let patches :=
    match conditionalPatches.field? (utf8 "Patches") with
    | some (.arr patches) => patches
    | _ => []
  let items ← patches.mapM patchItems
  pure (uniqueItems [] (conditions.flatMap (conditionItems themeConditions) ++ items.flatten))

def tagType (item : WebkitItem) : Option TagTypes :=
  if item.path.isEmpty || item.matchPattern.isEmpty then none
  else if item.fileType = utf8 "TargetCss" then some .stylesheet
  else if item.fileType = utf8 "TargetJs" then some .javascript
  else none

def addBrowserHook (path regex : Bytes) (type : TagTypes) : ThemeM Unit := do
  let s ← get
  match s.registry.addBrowserHook env.browser path regex type with
  | (.error what, _) => throw what
  | (.ok _, registry) => update fun s => { s with registry }

def addItem (path : Bytes) (item : WebkitItem) : ThemeM Unit :=
  match tagType item with
  | none => pure ()
  | some type => addBrowserHook env (joinPath path item.path) item.matchPattern type

def addConditionalData (path : Bytes) (data : JsonValue) (themeName : Bytes) : ThemeM Unit :=
  guarded do
    let themeConditions ← read [themesKey, conditionsKey] themeName (.obj [])
    let items ← demand (parseConditionalData data themeConditions)
    forM items (addItem env path)

def addMember (themePath : Bytes) (data : JsonValue) (x : Bytes × TagTypes) : ThemeM Unit :=
  match data.field? x.1 with
  | none => pure ()
  | some item => do
    let item ← demand item.getString
    addBrowserHook env (joinPath themePath item) (utf8 ".*") x.2

def webkitMembers : List (Bytes × TagTypes) :=
  [(utf8 "Steam-WebKit", .stylesheet), (utf8 "webkitCSS", .stylesheet), (utf8 "webkitJS", .javascript)]

def startWebkitHook (theme : JsonValue) (name : Bytes) : ThemeM Unit :=
  match theme.field? (utf8 "failed") with
  | some _ => pure ()
  | none => do
    let data := (theme.field? (utf8 "data")).getD .null
    let themePath := joinPath env.themesPath name
    forM webkitMembers (addMember env themePath data)
    addConditionalData env themePath data name

/-! ### Colours -/

def setupColor (nativeName : Bytes) (color : JsonValue) : ThemeM Unit :=
  match color.field? (utf8 "color"), color.field? (utf8 "defaultColor"), color.field? (utf8 "type") with
  | some (.str colorName), some (.str defaultHex), some (.num type) =>
    if type.den = 1 then do
      match ← demand (env.convertFromHex defaultHex type.num) with
      | none => pure ()
      | some value =>
        let existing ← read [themesKey, themeColorsKey, nativeName] colorName .null
        only existing.getString.toOption.isNone
          (assign env (pure ()) [themesKey, themeColorsKey, nativeName] colorName (.str value) true)
    else pure ()
  | _, _, _ => pure ()

def setupThemeColors (theme : Bytes × JsonValue) : ThemeM Unit :=
  match theme.2.field? (utf8 "RootColors") with
  | none => pure ()
  | some rootColors => do
    let rootFile ← demand rootColors.getString
    let colors ← demand (env.parseRootColors (joinPath (joinPath env.themesPath theme.1) rootFile))
    let themeColors ← read [themesKey] themeColorsKey .null
    only themeColors.isNull (assign env (pure ()) [themesKey] themeColorsKey (.obj []) true)
    let own ← read [themesKey, themeColorsKey] theme.1 .null
    only own.isNull (assign env (pure ()) [themesKey, themeColorsKey] theme.1 (.obj []) true)
    forM colors (setupColor env theme.1)

def setupColors : ThemeM Unit := do
  let themes ← demand env.findAllThemes
  forM themes (setupThemeColors env)
  saveToDisk env

/-! ### The handler -/

def unregisterAll : ThemeM Unit := update fun s => { s with registry := s.registry.unregisterAll }

def setupThemeHooks (listener : ThemeM Unit) : ThemeM Unit := do
  let themeData ← getActiveTheme env
  update fun s => { s with themeData }
  let activeThemeName ← demand (← read [themesKey] activeThemeKey .null).getString
  update fun s => { s with activeThemeName }
  setupConditionals env listener
  let s ← get
  startWebkitHook env s.themeData s.activeThemeName
  setupColors env

def onConfigChangeHdlr (env : ThemeEnv) : Nat → ThemeM Unit
  | 0 => Command.diverge
  | fuel + 1 => do
    let listener := onConfigChangeHdlr env fuel
    validateTheme env listener
    unregisterAll
    setupThemeHooks env listener

end CloudeLoader.Theme
