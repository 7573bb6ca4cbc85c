import CloudeLoader.Config.Defaults
import CloudeLoader.Config.Password

/-!
# A complete configuration (`config.cc`, `entry_point.cc`)

The configuration is read when the loader starts, and is changed by `set`, which the frontend and the listeners call, and
by `Core_SetBackendConfig`, which replaces all of it.
-/

namespace CloudeLoader.Config

open JsonValue Transition ConfigManager Option

open Engine (Bytes utf8)

/-! ### The calls -/

/-- A JSON text that was parsed: its names and strings are text, and an object has each name once. -/
structure Document where
  value : JsonValue
  isWellFormed : value.isWellFormed = true
  isTextual : value.isTextual = true

/-- What `load_from_disk` finds: no file, one that cannot be opened, or one whose text parses or not. -/
inductive ConfigFile
  | missing
  | locked
  | contents (document : Option Document)

def ConfigFile.data : ConfigFile → JsonValue
  | .contents (some document) => document.value
  | _ => .obj []

def ConfigFile.isLocked : ConfigFile → Bool
  | .locked => true
  | _ => false

structure SetArgs where
  names : List Bytes
  last : Bytes
  value : JsonValue

def SetArgs.path (a : SetArgs) : List Bytes := a.names ++ [a.last]

/-- A call, with what the disk does, what the listeners set while they are notified, and the ciphertext of a password. -/
inductive ManagerCall
  | load (io : SaveIo) (file : ConfigFile)
  | set (io : SaveIo) (listeners : List SetArgs) (args : SetArgs) (skipPropagation : Bool)
  | setBackendConfig (io : SaveIo) (listeners : List SetArgs) (encrypt : Bytes → Bytes) (incoming : Document)
      (skipPropagation : Bool)

section Calls

variable (equal : JsonValue → JsonValue → Bool)

def writes (data : JsonValue) (listeners : List SetArgs) : JsonValue :=
  listeners.foldl (fun data a => (setBy equal data a.names a.last a.value).getD data) data

def loadFromDisk (io : SaveIo) (m : ConfigManager) (file : ConfigFile) : Option ConfigManager := do
  let merged ← mergeDefaultConfig file.data m.defaults []
  ({ m with data := merged.1, saveDisabled := m.saveDisabled || file.isLocked } : ConfigManager).saveToDisk io

def setNotify (io : SaveIo) (listeners : List SetArgs) (m : ConfigManager) (a : SetArgs) (skipPropagation : Bool) :
    Option ConfigManager := do
  let data ← setBy equal m.data a.names a.last a.value
  if skipPropagation || equal (get m.data a.names a.last .null) a.value then return { m with data := data }
  ({ m with data := writes equal data listeners } : ConfigManager).saveToDisk io

def backendConfigSet (env : BackendEnv) (m : ConfigManager) (incoming : JsonValue) (skipPropagation : Bool) : ConfigManager :=
  match newConfig env m incoming with
  | none => m
  | some config => (m.setAll env.listeners env.io config skipPropagation).1

def callStep (m : ConfigManager) : ManagerCall → Option ConfigManager
  | .load io file => loadFromDisk io m file
  | .set io listeners args skipPropagation => setNotify equal io listeners m args skipPropagation
  | .setBackendConfig io listeners encrypt incoming skipPropagation =>
    some (backendConfigSet { plainEnv with encrypt := encrypt, io := io, listeners := fun data => writes equal data listeners }
      m incoming.value skipPropagation)

end Calls

/-! ### What the calls may be given -/

/-- The value has what the defaults have at its path, and the first member on a longer path is stored if it has a default. -/
def SetArgs.fits (defaults data : JsonValue) (a : SetArgs) : Bool :=
  a.names.all isText && isText a.last && a.value.isTextual &&
    ((defaults.get? a.path).all fun d => a.value.covers d) &&
    (match a.names with | [] => true | k :: _ => (defaults.field? k).isNone || data.contains k)

def writesFit (equal : JsonValue → JsonValue → Bool) (defaults : JsonValue) : JsonValue → List SetArgs → Bool
  | _, [] => true
  | data, a :: rest =>
    a.fits defaults data && writesFit equal defaults ((setBy equal data a.names a.last a.value).getD data) rest

def membersCover (defaults data : JsonValue) : Bool :=
  (items defaults).all fun x => (data.field? x.1).all fun w => w.covers x.2

/-- The password is a string, or there is none; a new one can be encrypted. -/
def passwordFits (encrypt : Bytes → Bytes) (config : JsonValue) : Bool :=
  match proxyPassword config with
  | none => true
  | some (.str pw) => pw = storedSentinel || pw = [] || encrypt pw ≠ [] && isText (encrypt pw)
  | some _ => false

def passwordRefused (config : JsonValue) : Bool :=
  match proxyPassword config with
  | none => false
  | some (.str _) => false
  | some _ => true

def callFits (equal : JsonValue → JsonValue → Bool) (m : ConfigManager) : ManagerCall → Bool
  | .load _ file => file.data.isObject || file.data.isNull
  | .set _ listeners a skipPropagation =>
    a.fits m.defaults m.data &&
      (skipPropagation || (setBy equal m.data a.names a.last a.value).all fun data => writesFit equal m.defaults data listeners)
  | .setBackendConfig _ listeners encrypt incoming skipPropagation =>
    passwordRefused incoming.value ||
      incoming.value.isObject && membersCover m.defaults incoming.value && passwordFits encrypt incoming.value &&
        (skipPropagation || (newConfig { plainEnv with encrypt := encrypt } m incoming.value).all fun config =>
          writesFit equal m.defaults config listeners)

/-! ### What the calls keep -/

structure Proper (defaults : JsonValue) : Prop where
  isObject : defaults.isObject = true
  isWellFormed : defaults.isWellFormed = true
  isTextual : defaults.isTextual = true
  nonempty : items defaults ≠ []
  password : ∀ d, defaults.get? [networkKey, proxyPasswordKey] = some d → d.isObject = false

/-- The configuration is an object that can be written as text, and its members have what their defaults have. -/
structure Whole (defaults data : JsonValue) : Prop where
  isObject : data.isObject = true
  isSorted : data.IsSorted
  isTextual : data.isTextual = true
  covers : ∀ k d w, defaults.field? k = some d → data.field? k = some w → w.covers d = true

section Keep

variable {equal : JsonValue → JsonValue → Bool} {defaults data d value : JsonValue} {names : List Bytes} {last k : Bytes}

theorem isSorted_assignBy (h : data.IsSorted) : (assignBy equal data names last value).IsSorted := by
  cases names with
  | nil =>
    have hobj : (asObject data).IsSorted := by
      unfold asObject
      split
      · exact h
      · exact List.Pairwise.nil
    rw [assignBy, putMemberBy]
    split
    · exact hobj
    · exact isSorted_setField hobj
  | cons k names => exact isSorted_setField h

theorem covers_child {w} (hk : data.field? k = some w) (h : w.covers d = true) : (child data k).covers d = true := by
  cases hd : d.isObject with
  | false => exact covers_of_not_isObject hd
  | true =>
    have hchl : child data k = w := by
      unfold child
      rw [hk, filter_some, if_pos (isObject_of_covers h hd), getD_some]
    rwa [hchl]

theorem covers_assignBy (hd : d.isWellFormed = true) (hdata : data.covers d = true)
    (hval : ∀ e, d.get? (names ++ [last]) = some e → value.covers e = true) :
    (assignBy equal data names last value).covers d = true := by
  induction names generalizing data d with
  | nil =>
    cases d with
    | obj fields =>
      refine covers_obj_iff.2 ⟨isObject_assignBy, fun x hx => ?_⟩
      obtain ⟨w, hw, hcov⟩ := (covers_obj_iff.1 hdata).2 x hx
      rw [assignBy, putMemberBy]
      split
      · exact ⟨w, by rw [field?_asObject, hw], hcov⟩
      · rw [field?_setField, field?_asObject]
        split
        · next heq =>
          refine ⟨value, rfl, hval x.2 ?_⟩
          rw [List.nil_append, ← heq, get?_cons_of_some, get?_nil]
          exact lookup_of_mem (isWellFormed_obj_iff.1 hd).1 hx
        · exact ⟨w, hw, hcov⟩
    | _ => exact covers_of_not_isObject rfl
  | cons k names ih =>
    cases d with
    | obj fields =>
      obtain ⟨hs, hall⟩ := isWellFormed_obj_iff.1 hd
      refine covers_obj_iff.2 ⟨isObject_assignBy, fun x hx => ?_⟩
      obtain ⟨w, hw, hcov⟩ := (covers_obj_iff.1 hdata).2 x hx
      rw [assignBy, field?_setField]
      split
      · next heq =>
        refine ⟨_, rfl, ih (hall x hx) (covers_child (heq ▸ hw) hcov) fun e he => hval e ?_⟩
        rw [List.cons_append, ← heq, get?_cons_of_some, he]
        exact lookup_of_mem hs hx
      · exact ⟨w, hw, hcov⟩
    | _ => exact covers_of_not_isObject rfl

theorem Whole.setBy {a : SetArgs} (hd : Proper defaults) (h : Whole defaults data) (hfit : a.fits defaults data = true) :
    ∃ data', setBy equal data a.names a.last a.value = some data' ∧ Whole defaults data' := by
  obtain ⟨names, last, value⟩ := a
  simp only [SetArgs.fits, Bool.and_eq_true, List.all_eq_true] at hfit
  obtain ⟨⟨⟨⟨hnam, hlast⟩, hval⟩, hcov⟩, hfir⟩ := hfit
  rw [all_eq_true] at hcov
  refine ⟨assignBy equal data names last value, ?_, isObject_assignBy, isSorted_assignBy h.isSorted,
    (everywhere_assignBy_iff hnam fun _ => h.isTextual).2 fun _ => ⟨hlast, hval⟩, ?_⟩
  · simp [Config.setBy, settable, h.isObject]
  intro k d w hk hw
  cases names with
  | nil =>
    rw [assignBy, putMemberBy] at hw
    split at hw
    · rw [field?_asObject] at hw
      exact h.covers k d w hk hw
    · rw [field?_setField, field?_asObject] at hw
      split at hw
      · next heq =>
        cases hw
        refine hcov d ?_
        rw [SetArgs.path, List.nil_append, ← heq, get?_cons_of_some hk, get?_nil]
      · exact h.covers k d w hk hw
  | cons l names =>
    rw [assignBy, field?_setField] at hw
    split at hw
    · next heq =>
      subst heq
      cases hw
      -- the member has a default, so it is stored
      simp only [hk, isNone_some, Bool.false_or, contains, isSome_iff_exists] at hfir
      obtain ⟨old, hold⟩ := hfir
      refine covers_assignBy (isWellFormed_of_field? hd.isWellFormed hk) (covers_child hold (h.covers k d old hk hold))
        fun e he => hcov e ?_
      rw [SetArgs.path, List.cons_append, get?_cons_of_some hk, he]
    · exact h.covers k d w hk hw

theorem Whole.writes {listeners : List SetArgs} (hd : Proper defaults) (h : Whole defaults data)
    (hfit : writesFit equal defaults data listeners = true) : Whole defaults (writes equal data listeners) := by
  induction listeners generalizing data with
  | nil => exact h
  | cons a listeners ih =>
    rw [writesFit, Bool.and_eq_true] at hfit
    obtain ⟨data', hset, hwhl⟩ := h.setBy hd hfit.1
    rw [hset] at hfit
    have hstep : Config.writes equal data (a :: listeners) = Config.writes equal data' listeners := by
      unfold Config.writes
      rw [List.foldl_cons, hset, getD_some]
    rw [hstep]
    exact ih hwhl hfit.2

theorem mergeFields_null {path fields} (h : fields ≠ []) :
    mergeFields .null path fields = mergeFields (.obj []) path fields := by
  cases fields with
  | nil => exact absurd rfl h
  | cons x fields =>
    obtain ⟨k, v⟩ := x
    have hrnd : mergeMember .null k (fullKey path k) v = mergeMember (.obj []) k (fullKey path k) v := by
      cases v with
      | obj below =>
        rfl
      | _ =>
        rfl
    rw [mergeFields, mergeFields, hrnd]

theorem whole_merge (hd : Proper defaults) (file : ConfigFile) (hfile : (file.data.isObject || file.data.isNull) = true) :
    ∃ merged, mergeDefaultConfig file.data defaults [] = some merged ∧ Whole defaults merged.1 := by
  obtain ⟨fields, rfl⟩ : ∃ fields, defaults = .obj fields := by
    have := hd.isObject
    cases defaults with
    | obj fields => exact ⟨fields, rfl⟩
    | _ => cases this
  have hwhl : ∀ c : JsonValue, c.isObject = true → c.isWellFormed = true → c.isTextual = true →
      Whole (.obj fields) (mergeFields c [] fields).1 := by
    intro c hobj hwf htext
    refine ⟨isObject_mergeFields hobj, ?_, ?_, fun k d w hk hw => ?_⟩
    · exact isSorted_of_isWellFormed
        (isWellFormed_mergeFields c [] fields hwf (isWellFormed_obj_iff.1 hd.isWellFormed).2) (isObject_mergeFields hobj)
    · exact everywhere_mergeFields c [] fields htext (by simpa [isTextual, everywhere] using hd.isTextual)
    · have hmer : (mergeFields c [] fields).1.covers (.obj fields) = true := covers_mergeFields hobj hd.isWellFormed
      obtain ⟨w', hw', hcov⟩ := covers_field? hmer hk
      cases hw.symm.trans hw'
      exact hcov
  have hdata : file.data.isWellFormed = true ∧ file.data.isTextual = true := by
    cases file with
    | contents document =>
      cases document with
      | none => exact ⟨rfl, rfl⟩
      | some document => exact ⟨document.isWellFormed, document.isTextual⟩
    | _ => exact ⟨rfl, rfl⟩
  refine ⟨mergeFields file.data [] fields, ?_, ?_⟩
  · simp [mergeDefaultConfig, items, hfile]
  · cases hobj : file.data.isObject with
    | true => exact hwhl _ hobj hdata.1 hdata.2
    | false =>
      obtain hnull : file.data = .null := by
        rw [hobj] at hfile
        cases hf : file.data with
        | null => rfl
        | _ =>
          rw [hf] at hfile
          cases hfile
      rw [hnull, mergeFields_null (show fields ≠ [] from hd.nonempty)]
      exact hwhl _ rfl rfl rfl

theorem whole_of_membersCover (hobj : data.isObject = true) (hwf : data.isWellFormed = true) (htext : data.isTextual = true)
    (hcov : membersCover defaults data = true) : Whole defaults data := by
  refine ⟨hobj, isSorted_of_isWellFormed hwf hobj, htext, fun k d w hk hw => ?_⟩
  cases defaults with
  | obj fields =>
    have := List.all_eq_true.1 hcov (k, d) (mem_of_lookup hk)
    rw [all_eq_true] at this
    exact this w hw
  | _ => cases hk

theorem Whole.setProxyPassword (hd : Proper defaults) (h : Whole defaults data) {v} (hv : v.isTextual = true)
    (hpw : (proxyPassword data).isSome = true) : Whole defaults (setProxyPassword data v) := by
  have hkey : ∀ s, isText (utf8 s) = true := Engine.isUtf8_utf8
  obtain ⟨pw, hpw⟩ := isSome_iff_exists.1 hpw
  obtain ⟨network, hnet, hpw⟩ := bind_eq_some_iff.1 hpw
  have hntx := (everywhere_of_field? h.isTextual hnet).2
  unfold Config.setProxyPassword
  rw [hnet]
  refine ⟨isObject_setField .., isSorted_setField h.isSorted, ?_, fun k d w hk hw => ?_⟩
  · exact everywhere_setField (hkey _) (everywhere_setField (hkey _) hv fun _ => hntx) fun _ => h.isTextual
  · rw [field?_setField] at hw
    split at hw
    · next heq =>
      subst heq
      cases hw
      have hcov := h.covers _ d network hk hnet
      cases d with
      | obj fields =>
        refine covers_obj_iff.2 ⟨isObject_setField .., fun x hx => ?_⟩
        rw [field?_setField]
        split
        · next hx' =>
          -- the default of the password is not an object
          refine ⟨v, rfl, covers_of_not_isObject (hd.password x.2 ?_)⟩
          rw [get?_cons_of_some hk, ← hx', get?_cons_of_some, get?_nil]
          exact lookup_of_mem (isWellFormed_obj_iff.1 (isWellFormed_of_field? hd.isWellFormed hk)).1 hx
        · exact (covers_obj_iff.1 hcov).2 x hx
      | _ => exact covers_of_not_isObject rfl
    · exact h.covers k d w hk hw

theorem whole_newConfig {env m incoming config} (hd : Proper defaults)
    (hm : m.data.isTextual = true) (h : Whole defaults incoming) (hpw : passwordFits env.encrypt incoming = true)
    (hnew : newConfig env m incoming = some config) : Whole defaults config := by
  unfold newConfig at hnew
  unfold passwordFits at hpw
  cases hp : proxyPassword incoming with
  | none =>
    simp only [hp, some.injEq] at hnew
    rwa [← hnew]
  | some pw =>
    have hsome : (proxyPassword incoming).isSome = true := by rw [hp]; rfl
    cases pw with
    | str pw =>
      simp only [hp] at hnew hpw
      split at hnew
      · cases hnew
        exact h.setProxyPassword hd (everywhere_get hm rfl) hsome
      · next hsen =>
        split at hnew
        · cases hnew
          exact h
        · next hemp =>
          simp only [hsen, hemp, decide_false, Bool.false_or, Bool.and_eq_true, decide_eq_true_eq] at hpw
          rw [if_neg hpw.1] at hnew
          cases hnew
          exact h.setProxyPassword hd hpw.2 hsome
    | _ =>
      simp only [hp] at hpw
      cases hpw

theorem saveToDisk_of_isTextual {m : ConfigManager} (io : SaveIo) (h : m.data.isTextual = true) :
    ∃ m', m.saveToDisk io = some m' ∧ m'.data = m.data ∧ m'.defaults = m.defaults := by
  unfold saveToDisk
  split
  · exact ⟨m, rfl, rfl, rfl⟩
  · simp only [dump, h, if_true]
    exact ⟨_, rfl, by split <;> rfl, by split <;> rfl⟩

end Keep

/-! ### Runs -/

section Runs

variable {equal : JsonValue → JsonValue → Bool} {m : ConfigManager}

def Succeeds (defaults : JsonValue) (result : Option ConfigManager) : Prop :=
  ∃ m, result = some m ∧ m.defaults = defaults ∧ Whole defaults m.data

theorem succeeds_save {defaults : JsonValue} (hm : m.defaults = defaults) (h : Whole defaults m.data) (io : SaveIo) :
    Succeeds defaults (m.saveToDisk io) := by
  obtain ⟨m', hsave, hdata, hdef⟩ := saveToDisk_of_isTextual io h.isTextual
  exact ⟨m', hsave, hdef.trans hm, hdata ▸ h⟩

theorem loadFromDisk_succeeds (hd : Proper m.defaults) (io : SaveIo) (file : ConfigFile)
    (hfile : (file.data.isObject || file.data.isNull) = true) : Succeeds m.defaults (loadFromDisk io m file) := by
  obtain ⟨merged, hmer, hwhl⟩ := whole_merge hd file hfile
  unfold loadFromDisk
  rw [hmer]
  exact succeeds_save rfl hwhl io

theorem setNotify_succeeds (hd : Proper m.defaults) (h : Whole m.defaults m.data) (io : SaveIo) (listeners : List SetArgs)
    (a : SetArgs) (skipPropagation : Bool)
    (hfit : callFits equal m (.set io listeners a skipPropagation) = true) :
    Succeeds m.defaults (setNotify equal io listeners m a skipPropagation) := by
  simp only [callFits, Bool.and_eq_true] at hfit
  obtain ⟨data, hset, hwhl⟩ : ∃ data, setBy equal m.data a.names a.last a.value = some data ∧ Whole m.defaults data :=
    h.setBy hd hfit.1
  rw [hset] at hfit
  unfold setNotify
  rw [hset]
  show Succeeds _ (if _ then _ else _)
  split
  · exact ⟨_, rfl, rfl, hwhl⟩
  · next hskip =>
    have hfits : writesFit equal m.defaults data listeners = true := by
      cases skipPropagation with
      | true => simp at hskip
      | false => simpa using hfit.2
    exact succeeds_save rfl (hwhl.writes hd hfits) io

theorem setAll_whole {listeners : JsonValue → JsonValue} {config : JsonValue} (hold : m.data.isObject = true) (io : SaveIo)
    (skipPropagation : Bool)
    (h : Whole m.defaults (afterListeners listeners config skipPropagation)) :
    (m.setAll listeners io config skipPropagation).1.defaults = m.defaults ∧
      Whole m.defaults (m.setAll listeners io config skipPropagation).1.data := by
  unfold setAll
  rw [hold]
  simp only [Bool.not_true, Bool.and_false, Bool.false_and, Bool.false_eq_true, if_false]
  obtain ⟨m', hsave, hdata, hdef⟩ := @saveToDisk_of_isTextual
    { m with data := afterListeners listeners config skipPropagation } io h.isTextual
  rw [hsave]
  exact ⟨hdef, hdata ▸ h⟩

theorem backendConfigSet_whole (hd : Proper m.defaults) (h : Whole m.defaults m.data) {io listeners}
    {encrypt : Bytes → Bytes} {incoming skipPropagation}
    (hfit : callFits equal m (.setBackendConfig io listeners encrypt incoming skipPropagation) = true) :
    Succeeds m.defaults (callStep equal m (.setBackendConfig io listeners encrypt incoming skipPropagation)) := by
  refine ⟨_, rfl, ?_⟩
  unfold backendConfigSet
  cases hnew : newConfig { plainEnv with encrypt := encrypt, io := io, listeners := fun data => writes equal data listeners } m
      incoming.value with
  | none => exact ⟨rfl, h⟩
  | some config =>
    have href : passwordRefused incoming.value = false := by
      unfold passwordRefused
      unfold newConfig at hnew
      cases hp : proxyPassword incoming.value with
      | none => rfl
      | some pw =>
        cases pw with
        | str pw => rfl
        | _ =>
          simp only [hp] at hnew
          cases hnew
    have hsame : newConfig { plainEnv with encrypt := encrypt } m incoming.value = some config := hnew
    simp only [callFits, href, hsame, Bool.false_or, Bool.and_eq_true, all_some] at hfit
    obtain ⟨⟨⟨hobj, hcov⟩, hpw⟩, hwrt⟩ := hfit
    have hinc := whole_of_membersCover hobj incoming.isWellFormed incoming.isTextual hcov
    have hwhl := @whole_newConfig m.defaults { plainEnv with encrypt := encrypt } m _ config hd h.isTextual hinc hpw hsame
    refine setAll_whole h.isObject io skipPropagation ?_
    unfold afterListeners
    split
    · exact hwhl
    · next hskip =>
      refine hwhl.writes hd ?_
      simpa [hskip] using hwrt

theorem callStep_succeeds (hd : Proper m.defaults) (h : Whole m.defaults m.data) (c : ManagerCall)
    (hfit : callFits equal m c = true) : Succeeds m.defaults (callStep equal m c) := by
  cases c with
  | load io file => exact loadFromDisk_succeeds hd io file hfit
  | set io listeners a skipPropagation => exact setNotify_succeeds hd h io listeners a skipPropagation hfit
  | setBackendConfig io listeners encrypt incoming skipPropagation => exact backendConfigSet_whole hd h hfit

theorem run_succeeds (hd : Proper m.defaults) (h : Whole m.defaults m.data) (calls : List ManagerCall)
    (hfit : along (callStep equal) (callFits equal) m calls = true) :
    Succeeds m.defaults (run (callStep equal) m calls) := by
  induction calls generalizing m with
  | nil => exact ⟨m, rfl, rfl, h⟩
  | cons c calls ih =>
    rw [along, Bool.and_eq_true] at hfit
    obtain ⟨m', hstep, hdef, hwhl⟩ := callStep_succeeds hd h c hfit.1
    rw [hstep] at hfit
    rw [run_cons, hstep, bind_some]
    have := ih (hdef.symm ▸ hd) (hdef.symm ▸ hwhl) hfit.2
    rwa [hdef] at this

theorem Whole.get?_getAll {defaults d p} (hm : m.defaults = defaults) (h : Whole defaults m.data)
    (hp : defaults.get? p = some d) : ∃ v, m.getAll.get? p = some v := by
  cases p with
  | nil => exact ⟨_, get?_nil⟩
  | cons k p =>
    rw [get?_cons, bind_eq_some_iff] at hp
    obtain ⟨e, hk, hp⟩ := hp
    rw [get?_cons, field?_getAll h.isSorted, hm, hk]
    cases hw : m.data.field? k with
    | none => exact ⟨d, hp⟩
    | some w =>
      obtain ⟨v, hv, -⟩ := get?_of_covers (h.covers k e w hk hw) hp
      exact ⟨v, hv⟩

def unloaded (hasShownWelcomeModal : Bool) : ConfigManager := ⟨.null, getDefaultConfig hasShownWelcomeModal, false, none⟩

theorem proper_getDefaultConfig (shown : Bool) : Proper (getDefaultConfig shown) where
  isObject := rfl
  isWellFormed := isWellFormed_getDefaultConfig shown
  isTextual := isTextual_getDefaultConfig shown
  nonempty := List.cons_ne_nil _ _
  password d hd := by
    have hdef : (getDefaultConfig shown).get? [networkKey, proxyPasswordKey] = some (.str []) := by
      cases shown <;> decide +kernel
    cases hdef.symm.trans hd
    rfl

/-- After the constructor and any calls that fit, nothing was thrown, the configuration is an object, and `get_all` has every
path of the defaults. -/
theorem stays_complete (equal : JsonValue → JsonValue → Bool) (shown : Bool) (io : SaveIo) (file : ConfigFile)
    (calls : List ManagerCall)
    (hfit : along (callStep equal) (callFits equal) (unloaded shown) (.load io file :: calls) = true) :
    ∃ m, run (callStep equal) (unloaded shown) (.load io file :: calls) = some m ∧ m.data.isObject = true ∧
      ∀ p d, (getDefaultConfig shown).get? p = some d → ∃ v, m.getAll.get? p = some v := by
  rw [along, Bool.and_eq_true] at hfit
  have hd := proper_getDefaultConfig shown
  obtain ⟨m₁, hload, hdef, hwhl⟩ := loadFromDisk_succeeds (m := unloaded shown) hd io file hfit.1
  have hstep : callStep equal (unloaded shown) (.load io file) = some m₁ := hload
  rw [hstep] at hfit
  have hprp : Proper m₁.defaults := hdef.symm ▸ hd
  obtain ⟨m, hrun, hm, hwhl'⟩ := run_succeeds hprp (hdef.symm ▸ hwhl) calls hfit.2
  rw [hdef] at hm hwhl'
  refine ⟨m, ?_, hwhl'.isObject, fun p d hp => hwhl'.get?_getAll hm hp⟩
  rw [run_cons, hstep]
  exact hrun

theorem stays_complete_after_set :
    ∃ m, run (callStep sameValue) (unloaded true) [.load ⟨true, true, true⟩ .missing,
        .set ⟨false, false, false⟩ [] ⟨[utf8 "general"], utf8 "injectCSS", .bool false⟩ false] = some m ∧
      m.data.isObject = true ∧ ∀ p d, (getDefaultConfig true).get? p = some d → ∃ v, m.getAll.get? p = some v :=
  stays_complete sameValue true _ _ _ (by decide +kernel)

theorem array_not_loaded :
    run (callStep sameValue) (unloaded true)
      [.load ⟨true, true, true⟩ (.contents (some ⟨.arr [], rfl, rfl⟩))] = none := by
  decide +kernel

end Runs

end CloudeLoader.Config
