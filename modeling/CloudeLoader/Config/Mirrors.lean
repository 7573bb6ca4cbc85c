import CloudeLoader.Config.Updates

/-!
# Mirrors of the configuration of a plugin (`plugin_config.cc`, `core_ipc.cc`, `plugin_loader.cc`)

The frontend and the Lua child of a plugin change its configuration.  An operation stores, saves, notifies the other side
and returns to its own; these are steps of one thread, with steps of other threads in between.
-/

namespace CloudeLoader.Config

open Function Option

open Engine (Bytes utf8)

variable {c : ConfigCall}

inductive Side
  | frontend
  | child
  deriving DecidableEq

def Side.other : Side → Side
  | .frontend => .child
  | .child => .frontend

inductive ConfigOp
  | set (key : Bytes) (value : JsonValue)
  | del (key : Bytes)
  | deleteAll

/-- An operation with the side it comes from.  `hasTarget` says that there is something to notify: `eval_js` or `bm`. -/
structure ConfigCall where
  side : Side
  op : ConfigOp
  hasTarget : Bool

/-! ### Notifications -/

def atob (bytes : Bytes) : Bytes :=
  bytes.flatMap fun b => if b < 0x80 then [b] else [(0xC0 : UInt8) ||| (b >>> 6), (0x80 : UInt8) ||| (b &&& 0x3F)]

def received (side : Side) (key : Bytes) (value : JsonValue) : Bytes × JsonValue :=
  match side with
  | .child => (key, value)
  | .frontend => (atob key, value.written.mapText atob)

def ConfigCall.notice (c : ConfigCall) : Option (Bytes × JsonValue) :=
  match c.op with
  | .set key value => if c.hasTarget then some (received c.side.other key value) else none
  | .del key => if c.hasTarget then some (received c.side.other key .null) else none
  | .deleteAll => none

abbrev Mirror := Bytes → Option JsonValue

def ConfigOp.applyOwn (mirror : Mirror) : ConfigOp → Mirror
  | .set key value => update mirror key (some value)
  | .del key => update mirror key none
  | .deleteAll => fun _ => none

def applyNotice (mirror : Mirror) (notice : Bytes × JsonValue) : Mirror :=
  update mirror notice.1 (if notice.2 = .null then none else some notice.2)

/-! ### Steps -/

/-- How far a call is.  After `sent`, it has returned to its own side or not, and the notification has arrived or not. -/
inductive CallPhase
  | waiting
  | planned (value : JsonValue)
  | stored
  | sent (returned arrived : Bool)
  | failed
  deriving DecidableEq

structure MirrorState (ι : Type*) where
  manager : ConfigManager
  phase : ι → CallPhase
  mirror : Side → Mirror

inductive MirrorEvent (ι : Type*)
  | read (i : ι)
  | write (i : ι)
  | save (i : ι) (io : SaveIo)
  | returns (i : ι)
  | arrives (i : ι)

namespace ConfigOp

def plan (textSize : JsonValue → Nat) (plugin : Bytes) (data : JsonValue) : ConfigOp → Option JsonValue
  | .set key value => (Update.set plugin key value).plan textSize data
  | .del key => (Update.del plugin key).plan textSize data
  | .deleteAll => if plugin = [] || isReservedName plugin then none else some (.obj [])

/-- The path that the operation sets, without its last name. -/
def names (plugin : Bytes) : ConfigOp → List Bytes
  | .set _ _ => [pluginsKey, plugin, configKey]
  | _ => [pluginsKey, plugin]

def last : ConfigOp → Bytes
  | .set key _ => key
  | _ => configKey

def store (cmp : Comparison) (plugin : Bytes) (m : ConfigManager) (value : JsonValue) (op : ConfigOp) : Option ConfigManager :=
  m.set cmp (op.names plugin) op.last value

end ConfigOp

variable {ι : Type*} [DecidableEq ι]

namespace MirrorState

def setPhase (s : MirrorState ι) (i : ι) (p : CallPhase) : MirrorState ι := { s with phase := update s.phase i p }

theorem phase_setPhase (s : MirrorState ι) (i j : ι) (p : CallPhase) :
    (s.setPhase i p).phase j = if j = i then p else s.phase j :=
  update_apply ..

def setMirror (s : MirrorState ι) (side : Side) (mirror : Mirror) : MirrorState ι :=
  { s with mirror := update s.mirror side mirror }

def start (plugin : Bytes) (m : ConfigManager) : MirrorState ι :=
  ⟨m, fun _ => .waiting, fun _ => (pluginConfig m.data plugin).field?⟩

section Step

variable (cmp : Comparison) (textSize : JsonValue → Nat) (plugin : Bytes) (calls : ι → ConfigCall)

def step (s : MirrorState ι) : MirrorEvent ι → Option (MirrorState ι)
  | .read i =>
    match s.phase i with
    | .waiting =>
      match (calls i).op.plan textSize plugin s.manager.data with
      | none => some (s.setPhase i .failed)
      | some value => some (s.setPhase i (.planned value))
    | _ => none
  | .write i =>
    match s.phase i with
    | .planned value =>
      match (calls i).op.store cmp plugin s.manager value with
      | none => some (s.setPhase i .failed)
      | some m => some { s.setPhase i .stored with manager := m }
    | _ => none
  | .save i io =>
    match s.phase i with
    | .stored =>
      match s.manager.saveToDisk io with
      | none => some (s.setPhase i .failed)
      | some m => some { s.setPhase i (.sent false (calls i).notice.isNone) with manager := m }
    | _ => none
  | .returns i =>
    match s.phase i with
    | .sent false arrived =>
      let side := (calls i).side
      some ((s.setPhase i (.sent true arrived)).setMirror side ((calls i).op.applyOwn (s.mirror side)))
    | _ => none
  | .arrives i =>
    match s.phase i, (calls i).notice with
    | .sent returned false, some notice =>
      let side := (calls i).side.other
      some ((s.setPhase i (.sent returned true)).setMirror side (applyNotice (s.mirror side) notice))
    | _, _ => none

end Step

end MirrorState

/-! ### Orderly steps -/

/-- The call has stored, and a side has not heard of it. -/
def CallPhase.inFlight : CallPhase → Bool
  | .stored => true
  | .sent returned arrived => !(returned && arrived)
  | _ => false

namespace ConfigOp

def touches (k : Bytes) : ConfigOp → Bool
  | .set key _ => k = key
  | .del key => k = key
  | .deleteAll => true

def result (op : ConfigOp) (k : Bytes) : Option JsonValue := op.applyOwn (fun _ => none) k

/-- `del` has read what is still stored, and `delete_all` finds nothing to delete. -/
def upToDate (config value : JsonValue) : ConfigOp → Bool
  | .set _ _ => true
  | .del key => config.eraseField key = value
  | .deleteAll => asObject config = .obj []

def conflicts : ConfigOp → ConfigOp → Bool
  | .set key _, v => v.touches key
  | .del key, v => v.touches key
  | .deleteAll, _ => true

end ConfigOp

/-- The other side is notified, and understands the key and the value as they are stored. -/
def ConfigCall.plain (c : ConfigCall) : Bool :=
  match c.op with
  | .set key value => value ≠ .null && c.notice = some (key, value)
  | .del key => c.notice = some (key, .null)
  | .deleteAll => true

namespace MirrorState

variable [Fintype ι] (cmp : Comparison) (plugin : Bytes) (calls : ι → ConfigCall)

/-- The conditions on a step.  `operator!=` tells the new value from another, while a side does not know what a call has stored
no other call stores the same member, and saving does not throw. -/
def orderly (s : MirrorState ι) : MirrorEvent ι → Bool
  | .write i =>
    match s.phase i with
    | .planned value =>
      (calls i).plain && (calls i).op.upToDate (pluginConfig s.manager.data plugin) value &&
        tells cmp.equal s.manager.data ((calls i).op.names plugin) (calls i).op.last value &&
        decide (∀ j, j ≠ i → (s.phase j).inFlight = true → (calls i).op.conflicts (calls j).op = false)
    | _ => true
  | .save _ io => (s.manager.saveToDisk io).isSome
  | _ => true

end MirrorState

/-! ### What an operation changes -/

namespace ConfigOp

variable {cmp : Comparison} {op u v : ConfigOp} {k plugin : Bytes} {value : JsonValue} {m m' : ConfigManager}

theorem applyOwn_eq (mirror : Mirror) : op.applyOwn mirror k = if op.touches k then op.result k else mirror k := by
  unfold result
  cases op with
  | set key value => by_cases h : k = key <;> simp [applyOwn, touches, h]
  | del key => by_cases h : k = key <;> simp [applyOwn, touches, h]
  | deleteAll => rfl

theorem not_touches_of_not_conflicts (h : u.conflicts v = false) (hu : u.touches k = true) : v.touches k = false := by
  cases u with
  | set key value =>
    obtain rfl : k = key := of_decide_eq_true hu
    exact h
  | del key =>
    obtain rfl : k = key := of_decide_eq_true hu
    exact h
  | deleteAll => cases h

theorem conflicts_comm : u.conflicts v = v.conflicts u := by
  cases u with
  | deleteAll => cases v <;> rfl
  | _ => cases v <;> simp [conflicts, touches, eq_comm]

def Plans (value : JsonValue) : ConfigOp → Prop
  | .set _ w => value = w
  | .del _ => value.isObject = true
  | .deleteAll => value = .obj []

theorem plans_of_plan {textSize : JsonValue → Nat} {data} (h : op.plan textSize plugin data = some value) :
    op.Plans value := by
  cases op with
  | set key w =>
    simp only [plan, Update.plan] at h
    split at h
    · exact (some.inj h).symm
    · cases h
  | del key =>
    simp only [plan, Update.plan] at h
    split at h
    · next hcond =>
      rw [← some.inj h]
      simp only [Bool.and_eq_true] at hcond
      exact JsonValue.isObject_eraseField hcond.2
    · cases h
  | deleteAll =>
    simp only [plan] at h
    split at h
    · cases h
    · exact (some.inj h).symm

theorem data_of_store (h : op.store cmp plugin m value = some m') :
    m'.data = assignBy cmp.equal m.data (op.names plugin) op.last value := by
  unfold store ConfigManager.set setBy at h
  split at h
  · rw [← some.inj h]
  · cases h

theorem field?_store (hpln : op.Plans value) (hnull : ∀ key, op ≠ .set key .null)
    (hcur : op.upToDate (pluginConfig m.data plugin) value = true)
    (htold : tells cmp.equal m.data (op.names plugin) op.last value = true) (hstr : op.store cmp plugin m value = some m') :
    (pluginConfig m'.data plugin).field? k =
      if op.touches k then op.result k else (pluginConfig m.data plugin).field? k := by
  rw [data_of_store hstr]
  cases op with
  | set key w =>
    obtain rfl : value = w := hpln
    have hne : value ≠ .null := by
      rintro rfl
      exact hnull key rfl
    simp only [names, last] at htold ⊢
    rw [field?_pluginConfig_set hne htold]
    by_cases hk : k = key <;> simp [touches, result, applyOwn, hk]
  | del key =>
    simp only [names, last] at htold ⊢
    rw [pluginConfig_write hpln htold, ← of_decide_eq_true hcur, JsonValue.field?_eraseField]
    by_cases hk : k = key <;> simp [touches, result, applyOwn, hk]
  | deleteAll =>
    obtain rfl : value = .obj [] := hpln
    simp only [names, last] at htold ⊢
    rw [pluginConfig_write rfl htold]
    rfl

end ConfigOp

/-! ### The invariant -/

/-- The call has stored, and the side is still to hear of it. -/
def ConfigCall.awaits (c : ConfigCall) (side : Side) : CallPhase → Bool
  | .stored => side = c.side || c.notice.isSome
  | .sent returned arrived => if side = c.side then !returned else c.notice.isSome && !arrived
  | _ => false

theorem ConfigCall.inFlight_of_awaits {side p} (h : c.awaits side p = true) : p.inFlight = true := by
  cases p with
  | stored => rfl
  | sent returned arrived =>
    simp only [awaits] at h
    simp only [CallPhase.inFlight]
    split at h <;> simp_all
  | _ => cases h

/-- Where a mirror is not as the stored configuration, the side is still to hear of the call that has stored. -/
structure Mirrored (plugin : Bytes) (calls : ι → ConfigCall) (s : MirrorState ι) : Prop where
  plans : ∀ i value, s.phase i = .planned value → (calls i).op.Plans value
  plain : ∀ i, (s.phase i).inFlight = true → (calls i).plain = true
  apart : ∀ i j, i ≠ j → (s.phase i).inFlight = true → (s.phase j).inFlight = true →
    (calls i).op.conflicts (calls j).op = false
  result : ∀ i k, (s.phase i).inFlight = true → (calls i).op.touches k = true →
    (pluginConfig s.manager.data plugin).field? k = (calls i).op.result k
  agree : ∀ side k, (∀ i, (calls i).awaits side (s.phase i) = true → (calls i).op.touches k = false) →
    s.mirror side k = (pluginConfig s.manager.data plugin).field? k

namespace Mirrored

variable {cmp : Comparison} {plugin : Bytes} {calls : ι → ConfigCall} {s : MirrorState ι} {i : ι} {p : CallPhase}

theorem setPhase_idle (h : Mirrored plugin calls s) (hold : (s.phase i).inFlight = false) (hnew : p.inFlight = false)
    (hpln : ∀ value, p = .planned value → (calls i).op.Plans value) : Mirrored plugin calls (s.setPhase i p) := by
  have hflg : ∀ j, ((s.setPhase i p).phase j).inFlight = (s.phase j).inFlight := by
    intro j
    rw [s.phase_setPhase]
    split
    · next hj => rw [hj, hold, hnew]
    · rfl
  have hawt : ∀ side j, (calls j).awaits side ((s.setPhase i p).phase j) = (calls j).awaits side (s.phase j) := by
    intro side j
    rw [s.phase_setPhase]
    split
    · next hj =>
      subst hj
      have h1 : (calls j).awaits side p = false := by
        by_contra hne
        rw [ConfigCall.inFlight_of_awaits (eq_true_of_ne_false hne)] at hnew
        cases hnew
      have h2 : (calls j).awaits side (s.phase j) = false := by
        by_contra hne
        rw [ConfigCall.inFlight_of_awaits (eq_true_of_ne_false hne)] at hold
        cases hold
      rw [h1, h2]
    · rfl
  refine ⟨?_, ?_, ?_, ?_, ?_⟩
  · intro j value hj
    rw [s.phase_setPhase] at hj
    split at hj
    · next hji =>
      rw [hji]
      exact hpln value hj
    · exact h.plans j value hj
  · intro j hj
    exact h.plain j (hflg j ▸ hj)
  · intro j j' hne hj hj'
    exact h.apart j j' hne (hflg j ▸ hj) (hflg j' ▸ hj')
  · intro j k hj
    exact h.result j k (hflg j ▸ hj)
  · intro side k hk
    refine h.agree side k fun j hj => hk j ?_
    rw [hawt]
    exact hj

theorem plain_set (h : c.plain = true) (key : Bytes) : c.op ≠ .set key .null := by
  intro hop
  simp [ConfigCall.plain, hop] at h

theorem op_of_not_awaits {side} (hpln : c.plain = true) (h : c.awaits side .stored = false) :
    c.op = .deleteAll := by
  have hnone : c.notice = none := by
    simp only [ConfigCall.awaits, Bool.or_eq_false_iff] at h
    exact not_isSome_iff_eq_none.1 (by simp [h.2])
  cases hop : c.op with
  | set key value => simp [ConfigCall.plain, hop, hnone] at hpln
  | del key => simp [ConfigCall.plain, hop, hnone] at hpln
  | deleteAll => rfl

theorem store {m value} (h : Mirrored plugin calls s) (hphase : s.phase i = .planned value)
    (hpln : (calls i).plain = true) (hcur : (calls i).op.upToDate (pluginConfig s.manager.data plugin) value = true)
    (htold : tells cmp.equal s.manager.data ((calls i).op.names plugin) (calls i).op.last value = true)
    (hqt : ∀ j, j ≠ i → (s.phase j).inFlight = true → (calls i).op.conflicts (calls j).op = false)
    (hstr : (calls i).op.store cmp plugin s.manager value = some m) :
    Mirrored plugin calls { s.setPhase i .stored with manager := m } := by
  have hupd : ∀ j, (s.setPhase i .stored).phase j = if j = i then .stored else s.phase j := (s.phase_setPhase i · _)
  have hfld : ∀ k, (pluginConfig m.data plugin).field? k =
      if (calls i).op.touches k then (calls i).op.result k else (pluginConfig s.manager.data plugin).field? k :=
    fun k => ConfigOp.field?_store (h.plans i value hphase) (plain_set hpln) hcur htold hstr
  have hflg : ∀ j, ((s.setPhase i .stored).phase j).inFlight = true → j = i ∨ j ≠ i ∧ (s.phase j).inFlight = true := by
    intro j hj
    by_cases hji : j = i
    · exact .inl hji
    · rw [hupd, if_neg hji] at hj
      exact .inr ⟨hji, hj⟩
  refine ⟨?_, ?_, ?_, ?_, ?_⟩
  · intro j w hj
    rw [show _ = _ from hupd j] at hj
    split at hj
    · cases hj
    · exact h.plans j w hj
  · intro j hj
    obtain rfl | ⟨-, hj⟩ := hflg j hj
    · exact hpln
    · exact h.plain j hj
  · intro j j' hne hj hj'
    rcases hflg j hj with rfl | ⟨hji, hold⟩
    · rcases hflg j' hj' with rfl | ⟨hji', hold'⟩
      · exact absurd rfl hne
      · exact hqt j' hji' hold'
    · rcases hflg j' hj' with rfl | ⟨-, hold'⟩
      · rw [ConfigOp.conflicts_comm]
        exact hqt j hji hold
      · exact h.apart j j' hne hold hold'
  · intro j k hj hk
    obtain rfl | ⟨hji, hj⟩ := hflg j hj
    · exact (hfld k).trans (if_pos hk)
    · have hapr := hqt j hji hj
      rw [ConfigOp.conflicts_comm] at hapr
      rw [show _ = _ from hfld k, if_neg (by simp [ConfigOp.not_touches_of_not_conflicts hapr hk])]
      exact h.result j k hj hk
  · intro side k hk
    show s.mirror side k = (pluginConfig m.data plugin).field? k
    have hawt : ∀ j, j ≠ i → (calls j).awaits side (s.phase j) = true → (calls j).op.touches k = false := by
      intro j hji hj
      refine hk j ?_
      rw [show _ = _ from hupd j, if_neg hji]
      exact hj
    have hidle : (calls i).awaits side (s.phase i) = false := by
      rw [hphase]
      rfl
    have hold : s.mirror side k = (pluginConfig s.manager.data plugin).field? k := by
      refine h.agree side k fun j hj => ?_
      by_cases hji : j = i
      · rw [hji, hidle] at hj
        cases hj
      · exact hawt j hji hj
    rw [hold, hfld k]
    split
    · next htch =>
      -- the side will not hear of it: this is `delete_all`, and there was nothing to delete
      have hdeaf : (calls i).awaits side .stored = false := by
        by_contra hne
        have := hk i (by rw [show _ = _ from hupd i, if_pos rfl]; exact eq_true_of_ne_false hne)
        rw [htch] at this
        cases this
      rw [op_of_not_awaits hpln hdeaf] at hcur ⊢
      rw [← field?_asObject, of_decide_eq_true hcur]
      rfl
    · rfl

theorem advance {s'} (h : Mirrored plugin calls s) (hflg : (s.phase i).inFlight = true)
    (hp : ∀ value, p ≠ .planned value) (hdata : s'.manager.data = s.manager.data)
    (hphase : s'.phase = update s.phase i p)
    (hside : ∀ side, ((calls i).awaits side p = (calls i).awaits side (s.phase i) ∧ s'.mirror side = s.mirror side) ∨
      ∀ k, s'.mirror side k = if (calls i).op.touches k then (calls i).op.result k else s.mirror side k) :
    Mirrored plugin calls s' := by
  have hupd : ∀ j, s'.phase j = if j = i then p else s.phase j := by
    intro j
    rw [hphase, update_apply]
  have hold : ∀ j, (s'.phase j).inFlight = true → (s.phase j).inFlight = true := by
    intro j hj
    rw [hupd] at hj
    split at hj
    · next hji => rwa [hji]
    · exact hj
  refine ⟨?_, ?_, ?_, ?_, ?_⟩
  · intro j value hj
    rw [hupd] at hj
    split at hj
    · exact absurd hj (hp value)
    · exact h.plans j value hj
  · intro j hj
    exact h.plain j (hold j hj)
  · intro j j' hne hj hj'
    exact h.apart j j' hne (hold j hj) (hold j' hj')
  · intro j k hj
    rw [hdata]
    exact h.result j k (hold j hj)
  · intro side k hk
    rw [hdata]
    have hoth : ∀ j, j ≠ i → (calls j).awaits side (s.phase j) = true → (calls j).op.touches k = false := by
      intro j hji hj
      refine hk j ?_
      rw [hupd, if_neg hji]
      exact hj
    rcases hside side with ⟨hsame, hmir⟩ | hmir
    · rw [hmir]
      refine h.agree side k fun j hj => ?_
      by_cases hji : j = i
      · subst hji
        refine hk j ?_
        rw [hupd, if_pos rfl, hsame]
        exact hj
      · exact hoth j hji hj
    · rw [hmir]
      split
      · next htch => exact (h.result i k hflg htch).symm
      · next htch =>
        refine h.agree side k fun j hj => ?_
        by_cases hji : j = i
        · rw [hji]
          exact eq_false_of_ne_true htch
        · exact hoth j hji hj

theorem applyNotice_eq {notice} (hpln : c.plain = true)
    (hnot : c.notice = some notice) (mirror : Mirror) (k : Bytes) :
    applyNotice mirror notice k = if c.op.touches k then c.op.result k else mirror k := by
  rw [← ConfigOp.applyOwn_eq]
  cases hop : c.op with
  | set key value =>
    simp only [ConfigCall.plain, hop, hnot, Bool.and_eq_true, decide_eq_true_eq, some.injEq] at hpln
    rw [applyNotice, hpln.2, if_neg hpln.1]
    rfl
  | del key =>
    simp only [ConfigCall.plain, hop, hnot, decide_eq_true_eq, some.injEq] at hpln
    rw [applyNotice, hpln]
    rfl
  | deleteAll => simp [ConfigCall.notice, hop] at hnot

theorem step [Fintype ι] {textSize : JsonValue → Nat} {s' e} (h : Mirrored plugin calls s)
    (hok : s.orderly cmp plugin calls e = true) (hstep : s.step cmp textSize plugin calls e = some s') : Mirrored plugin calls s' := by
  cases e with
  | read i =>
    simp only [MirrorState.step] at hstep
    split at hstep
    · next hphase =>
      split at hstep
      · rw [← some.inj hstep]
        exact h.setPhase_idle (by rw [hphase]; rfl) rfl (by simp)
      · next value hplan =>
        rw [← some.inj hstep]
        refine h.setPhase_idle (by rw [hphase]; rfl) rfl fun w hw => ?_
        rw [← CallPhase.planned.inj hw]
        exact ConfigOp.plans_of_plan hplan
    · cases hstep
  | write i =>
    simp only [MirrorState.step] at hstep
    split at hstep
    · next value hphase =>
      split at hstep
      · rw [← some.inj hstep]
        exact h.setPhase_idle (by rw [hphase]; rfl) rfl (by simp)
      · next m hstr =>
        rw [← some.inj hstep]
        simp only [MirrorState.orderly, hphase, Bool.and_eq_true, decide_eq_true_eq] at hok
        obtain ⟨⟨⟨hpln, hcur⟩, htold⟩, hqt⟩ := hok
        exact h.store hphase hpln hcur htold hqt hstr
    · cases hstep
  | save i io =>
    simp only [MirrorState.step] at hstep
    split at hstep
    · next hphase =>
      split at hstep
      · next hnone =>
        simp only [MirrorState.orderly, hnone] at hok
        cases hok
      · next m hsave =>
        rw [← some.inj hstep]
        have hdata := (ConfigManager.withData_saveToDisk hsave).1
        refine h.advance (by rw [hphase]; rfl) (by simp) hdata rfl fun side => .inl ⟨?_, rfl⟩
        rw [hphase]
        by_cases hside : side = (calls i).side <;> cases hn : (calls i).notice <;> simp [ConfigCall.awaits, hside, hn]
    · cases hstep
  | returns i =>
    simp only [MirrorState.step] at hstep
    split at hstep
    · next arrived hphase =>
      rw [← some.inj hstep]
      refine h.advance (by rw [hphase]; rfl) (by simp) rfl rfl fun side => ?_
      by_cases hside : side = (calls i).side
      · subst hside
        refine .inr fun k => ?_
        simp only [MirrorState.setMirror, update_self]
        exact ConfigOp.applyOwn_eq _
      · refine .inl ⟨?_, update_of_ne hside _ _⟩
        rw [hphase]
        simp [ConfigCall.awaits, hside]
    · cases hstep
  | arrives i =>
    simp only [MirrorState.step] at hstep
    split at hstep
    · next returned notice hphase hnot =>
      rw [← some.inj hstep]
      have hflg : (s.phase i).inFlight = true := by
        rw [hphase]
        simp [CallPhase.inFlight]
      refine h.advance hflg (by simp) rfl rfl fun side => ?_
      by_cases hside : side = (calls i).side.other
      · subst hside
        refine .inr fun k => ?_
        simp only [MirrorState.setMirror, update_self]
        exact applyNotice_eq (h.plain i hflg) hnot _ k
      · refine .inl ⟨?_, update_of_ne hside _ _⟩
        have hown : side = (calls i).side := by
          cases side <;> cases hc : (calls i).side <;> simp [hc, Side.other] at hside ⊢
        rw [hphase]
        simp [ConfigCall.awaits, hown]
    · cases hstep

end Mirrored

omit [DecidableEq ι] in
theorem mirrored_start (plugin : Bytes) (calls : ι → ConfigCall) (m : ConfigManager) :
    Mirrored plugin calls (MirrorState.start plugin m) :=
  ⟨by simp [MirrorState.start], by simp [MirrorState.start, CallPhase.inFlight],
    by simp [MirrorState.start, CallPhase.inFlight], by simp [MirrorState.start, CallPhase.inFlight], fun _ _ _ => rfl⟩

def CallPhase.settled (p : CallPhase) : Bool := p = .failed || p = .sent true true

/-- In every run of orderly steps, when all calls have returned and all notifications have arrived, both mirrors hold what is
stored. -/
theorem mirrors_consistent [Fintype ι] (cmp : Comparison) (textSize : JsonValue → Nat) (plugin : Bytes) (calls : ι → ConfigCall)
    (m : ConfigManager) (s : MirrorState ι)
    (h : Transition.ReachesBy (MirrorState.step cmp textSize plugin calls) (MirrorState.orderly cmp plugin calls)
      (MirrorState.start plugin m) s)
    (hsettled : ∀ i, (s.phase i).settled = true) (side : Side) :
    s.mirror side = (pluginConfig s.manager.data plugin).field? := by
  have hmir : Mirrored plugin calls s := h.preserves (mirrored_start plugin calls m) fun hm hok hstep => hm.step hok hstep
  funext k
  refine hmir.agree side k fun i hi => ?_
  have hflg := ConfigCall.inFlight_of_awaits hi
  have hdone := hsettled i
  simp only [CallPhase.settled, Bool.or_eq_true, decide_eq_true_eq] at hdone
  rcases hdone with hdone | hdone
  · rw [hdone] at hflg
    cases hflg
  · rw [hdone] at hflg
    cases hflg

def oneMember : ConfigManager :=
  ⟨.obj [(pluginsKey, .obj [(utf8 "p", .obj [(configKey, .obj [(utf8 "a", .bool true)])])])], .obj [], false, none⟩

def oneCall (op : ConfigOp) : Unit → ConfigCall := fun _ => ⟨.frontend, op, true⟩

theorem mirrors_consistent_set :
    ∃ s, Transition.run (MirrorState.step .same (fun _ => 4) (utf8 "p") (oneCall (.set (utf8 "b") (.bool true))))
        (MirrorState.start (utf8 "p") oneMember) [.read (), .write (), .save () ⟨true, true, true⟩, .returns (), .arrives ()] =
          some s ∧
      ∀ side, s.mirror side = (pluginConfig s.manager.data (utf8 "p")).field? := by
  refine ⟨_, rfl, mirrors_consistent .same (fun _ => 4) (utf8 "p") (oneCall (.set (utf8 "b") (.bool true))) oneMember _ ?_ ?_⟩
  · exact ⟨[.read (), .write (), .save () ⟨true, true, true⟩, .returns (), .arrives ()], rfl, by decide +kernel⟩
  · decide +kernel

theorem deleteAll_leaves_mirror :
    ∃ s, Transition.run (MirrorState.step .same (fun _ => 4) (utf8 "p") (oneCall .deleteAll))
        (MirrorState.start (utf8 "p") oneMember) [.read (), .write (), .save () ⟨true, true, true⟩, .returns ()] = some s ∧
      (∀ i, (s.phase i).settled = true) ∧ s.mirror .child ≠ (pluginConfig s.manager.data (utf8 "p")).field? := by
  refine ⟨_, rfl, by decide +kernel, ?_⟩
  intro h
  exact absurd (congrFun h (utf8 "a")) (by decide +kernel)

end CloudeLoader.Config
