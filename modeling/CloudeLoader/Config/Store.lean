import CloudeLoader.Engine.Encoding
import CloudeLoader.Lib.JsonValue

/-!
# The configuration (`config.cc`)

`config_manager` holds one JSON value.
-/

namespace CloudeLoader.Config

open JsonValue

open Engine (Bytes utf8)

/-! ### Reading and writing a value -/

def get : JsonValue → List Bytes → Bytes → JsonValue → JsonValue
  | j, [], last, default => (j.field? last).getD default
  | j, k :: names, last, default =>
    match j.field? k with
    | none => default
    | some v => get v names last default

def child (j : JsonValue) (k : Bytes) : JsonValue := ((j.field? k).filter isObject).getD (.obj [])

def asObject (j : JsonValue) : JsonValue := if j.isObject then j else .obj []

/-- Two values are taken for equal if `!=` is false.  This is exact if one of them has no number and no binary value in it.
Numbers of different kinds may be taken for equal, and so are a NaN and any number. -/
structure Comparison where
  equal : JsonValue → JsonValue → Bool
  exact : ∀ {v w : JsonValue}, (v.isPlain || w.isPlain) = true → (equal v w = true ↔ v = w)

/-- The comparison of values that are numbers of one kind, and not NaN. -/
def sameValue (v w : JsonValue) : Bool := decide (v = w)

def Comparison.same : Comparison := ⟨sameValue, by simp [sameValue]⟩

section Comparing

variable (equal : JsonValue → JsonValue → Bool)

def putMemberBy (j : JsonValue) (k : Bytes) (value : JsonValue) : JsonValue :=
  if equal ((j.field? k).getD .null) value then j else j.setField k value

def assignBy : JsonValue → List Bytes → Bytes → JsonValue → JsonValue
  | j, [], last, value => putMemberBy equal (asObject j) last value
  | j, k :: names, last, value => j.setField k (assignBy (child j k) names last value)

/-- `set` has changed something and calls the listeners. -/
def changesBy (j : JsonValue) (names : List Bytes) (last : Bytes) (value : JsonValue) : Bool :=
  !equal (get j names last .null) value

/-- What is stored is told from the new value, or is the same. -/
def tells (j : JsonValue) (names : List Bytes) (last : Bytes) (value : JsonValue) : Bool :=
  changesBy equal j names last value || get j names last .null = value

end Comparing

/-- `operator[]` throws if the configuration is neither an object nor `null`; it is not used for a path of one name. -/
def settable (j : JsonValue) (names : List Bytes) : Bool := j.isObject || j.isNull || names.isEmpty

def setBy (equal : JsonValue → JsonValue → Bool) (j : JsonValue) (names : List Bytes) (last : Bytes) (value : JsonValue) :
    Option JsonValue :=
  if settable j names then some (assignBy equal j names last value) else none

theorem getD_setBy {equal : JsonValue → JsonValue → Bool} {j value : JsonValue} {names : List Bytes} {last : Bytes} :
    (setBy equal j names last value).getD j = if settable j names then assignBy equal j names last value else j := by
  unfold setBy
  split <;> rfl

theorem isObject_of_field? {j v : JsonValue} {k : Bytes} (h : j.field? k = some v) : j.isObject = true := by
  cases j with
  | obj fields => rfl
  | _ => cases h

theorem field?_asObject (j : JsonValue) (k : Bytes) : (asObject j).field? k = j.field? k := by
  cases j <;> rfl

section Everywhere

variable {scalar : JsonValue → Bool} {name : Bytes → Bool} {j : JsonValue} {names : List Bytes} {last : Bytes}

theorem everywhere_child (hj : j.isObject = true → j.everywhere scalar name = true) (k : Bytes) :
    (child j k).everywhere scalar name = true := by
  unfold child
  cases h : (j.field? k).filter isObject with
  | none => rfl
  | some v =>
    have hv := (Option.filter_eq_some_iff.1 h).1
    exact (everywhere_of_field? (hj (isObject_of_field? hv)) hv).2

theorem everywhere_asObject (hj : j.isObject = true → j.everywhere scalar name = true) :
    (asObject j).everywhere scalar name = true := by
  unfold asObject
  split
  · next h => exact hj h
  · rfl

theorem everywhere_get {default} (hj : j.everywhere scalar name = true)
    (hdef : default.everywhere scalar name = true) : (get j names last default).everywhere scalar name = true := by
  induction names generalizing j with
  | nil =>
    unfold get
    cases hv : j.field? last with
    | none => exact hdef
    | some v => exact (everywhere_of_field? hj hv).2
  | cons k names ih =>
    unfold get
    split
    · exact hdef
    · next v hv => exact ih (everywhere_of_field? hj hv).2

end Everywhere

/-! ### What a write leaves alone -/

section Frame

variable {equal : JsonValue → JsonValue → Bool} {j j' value default : JsonValue} {k : Bytes} {names rest : List Bytes}
  {last last' : Bytes}

theorem get_congr (h : j.field? (rest.headD last) = j'.field? (rest.headD last)) :
    get j rest last default = get j' rest last default := by
  cases rest with
  | nil =>
    unfold get
    rw [show j.field? last = j'.field? last from h]
  | cons l rest =>
    unfold get
    rw [show j.field? l = j'.field? l from h]

theorem field?_putMemberBy_ne {l} (h : l ≠ k) : (putMemberBy equal j k value).field? l = j.field? l := by
  unfold putMemberBy
  split
  · rfl
  · rw [field?_setField, if_neg h]

theorem field?_assignBy_ne {l} (h : l ≠ names.headD last) : (assignBy equal j names last value).field? l = j.field? l := by
  cases names with
  | nil => rw [assignBy, field?_putMemberBy_ne (by simpa using h), field?_asObject]
  | cons k names => rw [assignBy, field?_setField, if_neg (by simpa using h)]

theorem get_child : get (child j k) rest last default = get j (k :: rest) last default := by
  have hnone : ∀ v : JsonValue, (∀ l, v.field? l = none) → get v rest last default = default := by
    intro v hv
    cases rest with
    | nil => rw [get, hv]; rfl
    | cons l rest => rw [get, hv]
  rw [get, child]
  cases hv : j.field? k with
  | none => exact hnone _ fun _ => rfl
  | some v =>
    cases v with
    | obj fields => rfl
    | _ => exact (hnone _ fun _ => rfl).trans (hnone _ fun _ => rfl).symm

theorem field?_child (l : Bytes) : (child j k).field? l = ((j.field? k).getD (.obj [])).field? l := by
  unfold child
  cases j.field? k with
  | none => rfl
  | some v =>
    cases v with
    | obj fields => rfl
    | _ => rfl

theorem changesBy_cons : changesBy equal j (k :: names) last value = changesBy equal (child j k) names last value := by
  rw [changesBy, changesBy, get_child]

theorem tells_iff :
    tells equal j names last value = true ↔
      (equal (get j names last .null) value = true → get j names last .null = value) := by
  rw [tells, changesBy]
  cases equal (get j names last .null) value <;> simp

theorem tells_of_isPlain (cmp : Comparison) (h : value.isPlain = true) : tells cmp.equal j names last value = true :=
  tells_iff.2 (cmp.exact (by simp [h])).1

theorem tells_sameValue : tells sameValue j names last value = true := tells_iff.2 of_decide_eq_true

theorem Comparison.equal_of_isPlain (cmp : Comparison) (h : value.isPlain = true) :
    cmp.equal j value = sameValue j value := by
  rw [Bool.eq_iff_iff, cmp.exact (by simp [h]), sameValue, decide_eq_true_eq]

theorem changesBy_of_isPlain (cmp : Comparison) (h : value.isPlain = true) :
    changesBy cmp.equal j names last value = changesBy sameValue j names last value := by
  rw [changesBy, changesBy, cmp.equal_of_isPlain h]

theorem assignBy_of_isPlain (cmp : Comparison) (h : value.isPlain = true) :
    assignBy cmp.equal j names last value = assignBy sameValue j names last value := by
  induction names generalizing j with
  | nil => rw [assignBy, assignBy, putMemberBy, putMemberBy, cmp.equal_of_isPlain h]
  | cons k names ih => rw [assignBy, assignBy, ih]

theorem field?_putMemberBy_self (hne : value ≠ .null) (h : tells equal j [] k value = true) :
    (putMemberBy equal j k value).field? k = some value := by
  unfold putMemberBy
  split
  · next heq =>
    have hold : (j.field? k).getD .null = value := tells_iff.1 h heq
    cases hv : j.field? k with
    | none =>
      rw [hv] at hold
      exact absurd hold.symm hne
    | some v =>
      rw [hv] at hold
      exact congrArg some hold
  · rw [field?_setField, if_pos rfl]

theorem get_assignBy_self (hne : value ≠ .null) (h : tells equal j names last value = true) :
    get (assignBy equal j names last value) names last default = value := by
  rw [tells_iff] at h
  induction names generalizing j with
  | nil =>
    have htold : tells equal (asObject j) [] last value = true := by
      rw [tells_iff, get, field?_asObject]
      exact h
    rw [get, assignBy, field?_putMemberBy_self hne htold, Option.getD_some]
  | cons k names ih =>
    rw [get, assignBy, field?_setField, if_pos rfl]
    rw [← get_child] at h
    exact ih h

/-- A condition on all parts of the configuration stays, if and only if what is changed meets it. -/
theorem everywhere_assignBy_iff {scalar : JsonValue → Bool} {name : Bytes → Bool} (hnam : ∀ k ∈ names, name k = true)
    (hj : j.isObject = true → j.everywhere scalar name = true) :
    (assignBy equal j names last value).everywhere scalar name = true ↔
      (changesBy equal j names last value = true → name last = true ∧ value.everywhere scalar name = true) := by
  induction names generalizing j with
  | nil =>
    have hobj := everywhere_asObject hj
    rw [assignBy, putMemberBy, field?_asObject, changesBy, get]
    cases equal ((j.field? last).getD .null) value with
    | true => simpa using hobj
    | false =>
      simp only [Bool.false_eq_true, if_false, Bool.not_false, forall_const]
      refine ⟨fun h => everywhere_of_field? h ?_, fun h => everywhere_setField h.1 h.2 fun _ => hobj⟩
      rw [field?_setField, if_pos rfl]
  | cons k names ih =>
    have hchl : (assignBy equal j (k :: names) last value).field? k = some (assignBy equal (child j k) names last value) := by
      rw [assignBy, field?_setField, if_pos rfl]
    rw [changesBy_cons, ← ih (fun l hl => hnam l (by simp [hl])) fun _ => everywhere_child hj k]
    exact ⟨fun h => (everywhere_of_field? h hchl).2, fun h => everywhere_setField (hnam k (by simp)) h hj⟩

end Frame

/-! ### The manager -/

structure ConfigManager where
  data : JsonValue
  defaults : JsonValue
  saveDisabled : Bool
  file : Option JsonValue

/-- What happens on the disk in `save_to_disk`: the temporary file opens, it is written, and one of the renames succeeds. -/
structure SaveIo where
  opens : Bool
  writes : Bool
  renames : Bool

namespace ConfigManager

def saveToDisk (io : SaveIo) (m : ConfigManager) : Option ConfigManager :=
  if m.saveDisabled || !io.opens then some m
  else
    match m.data.dump with
    | none => none
    | some text => some (if io.writes && io.renames then { m with file := some text } else m)

def withData (m : ConfigManager) (data : JsonValue) (m' : ConfigManager) : Prop :=
  m'.data = data ∧ m'.saveDisabled = m.saveDisabled

theorem withData_saveToDisk {m m' : ConfigManager} {io : SaveIo} (h : m.saveToDisk io = some m') : m.withData m.data m' := by
  unfold saveToDisk at h
  split at h
  · cases h
    exact ⟨rfl, rfl⟩
  · split at h <;> cases h
    split
    · exact ⟨rfl, rfl⟩
    · exact ⟨rfl, rfl⟩

def set (cmp : Comparison) (m : ConfigManager) (names : List Bytes) (last : Bytes) (value : JsonValue) :
    Option ConfigManager :=
  (setBy cmp.equal m.data names last value).map fun data => { m with data }

def items : JsonValue → List (Bytes × JsonValue)
  | .null => []
  | .obj fields => fields
  | .arr xs => xs.zipIdx.map fun x => (utf8 (toString x.2), x.1)
  | v => [([], v)]

def overlay (j : JsonValue) (fields : List (Bytes × JsonValue)) : JsonValue := fields.foldl (fun r x => r.setField x.1 x.2) j

def getAll (m : ConfigManager) : JsonValue := overlay m.defaults (items m.data)

def afterListeners (listeners : JsonValue → JsonValue) (newConfig : JsonValue) (skipPropagation : Bool) : JsonValue :=
  if skipPropagation then newConfig else listeners newConfig

/-- `set_all` catches an exception: the old values are looked up in what is not an object, or saving throws. -/
def setAllThrows (listeners : JsonValue → JsonValue) (io : SaveIo) (m : ConfigManager) (newConfig : JsonValue)
    (skipPropagation : Bool) : Bool :=
  !skipPropagation && !m.data.isObject && items newConfig ≠ [] ||
    (({ m with data := afterListeners listeners newConfig skipPropagation } : ConfigManager).saveToDisk io).isNone

def setAll (listeners : JsonValue → JsonValue) (io : SaveIo) (m : ConfigManager) (newConfig : JsonValue)
    (skipPropagation : Bool) : ConfigManager × JsonValue :=
  if !skipPropagation && !m.data.isObject && items newConfig ≠ [] then ({ m with data := newConfig }, .obj [])
  else
    let after : ConfigManager := { m with data := afterListeners listeners newConfig skipPropagation }
    match after.saveToDisk io with
    | none => (after, .obj [])
    | some m => (m, m.data)

theorem setAll_response (listeners : JsonValue → JsonValue) (io : SaveIo) (m : ConfigManager) (newConfig : JsonValue)
    (skipPropagation : Bool) :
    (m.setAll listeners io newConfig skipPropagation).2 =
      if m.setAllThrows listeners io newConfig skipPropagation then .obj []
      else afterListeners listeners newConfig skipPropagation := by
  unfold setAll setAllThrows
  by_cases hold : (!skipPropagation && !m.data.isObject && items newConfig ≠ []) = true
  · simp only [hold, Bool.true_or, if_true]
  · simp only [hold, Bool.false_eq_true, Bool.false_or, if_false]
    split
    · next hnone =>
      rw [hnone]
      rfl
    · next m' hsave =>
      rw [hsave]
      exact (withData_saveToDisk hsave).1

theorem isSorted_overlay {j} (hj : j.IsSorted) (fields : List (Bytes × JsonValue)) : (overlay j fields).IsSorted := by
  induction fields generalizing j with
  | nil => exact hj
  | cons x fields ih => exact ih (isSorted_setField hj)

theorem field?_overlay {fields} (hfld : JsonValue.SortedFields fields) (j : JsonValue)
    (k : Bytes) : (overlay j fields).field? k = (fields.lookup k).or (j.field? k) := by
  induction fields generalizing j with
  | nil => rfl
  | cons x fields ih =>
    obtain ⟨hx, hrest⟩ := List.pairwise_cons.1 hfld
    have hstep : (overlay j (x :: fields)).field? k = (overlay (j.setField x.1 x.2) fields).field? k := rfl
    rw [hstep, ih hrest, field?_setField, lookup_cons_ite]
    by_cases hk : k = x.1
    · rw [if_pos hk, if_pos hk, hk, lookup_eq_none_of_lt hx]
      rfl
    · rw [if_neg hk, if_neg hk]

theorem field?_getAll {m : ConfigManager} (hm : m.data.IsSorted) (k : Bytes) :
    m.getAll.field? k = (m.data.field? k).or (m.defaults.field? k) := by
  unfold getAll
  cases hd : m.data with
  | obj fields =>
    rw [hd] at hm
    exact field?_overlay hm _ k
  | _ =>
    rw [hd] at hm
    exact hm.elim

def saves (io : SaveIo) (m : ConfigManager) : Bool := !m.saveDisabled && io.opens && io.writes && io.renames

/-- Whatever the disk does, `save_to_disk` returns, and what it has written is read back as the configuration. -/
def Persists (m : ConfigManager) : Prop :=
  ∀ io, ∃ m', m.saveToDisk io = some m' ∧ (m.saves io = true → m'.file = some m.data)

theorem persists_iff (m : ConfigManager) :
    m.Persists ↔ m.saveDisabled = true ∨ m.data.isFaithful = true := by
  rw [← dump_eq_self_iff]
  cases hd : m.saveDisabled with
  | true =>
    refine iff_of_true ?_ (.inl rfl)
    intro io
    exact ⟨m, by simp [saveToDisk, hd], by simp [saves, hd]⟩
  | false =>
    simp only [Bool.false_eq_true, false_or]
    constructor
    · intro h
      obtain ⟨m', hm, hfile⟩ := h ⟨true, true, true⟩
      replace hfile := hfile (by simp [saves, hd])
      simp only [saveToDisk, hd, Bool.not_true, Bool.or_self, Bool.false_eq_true, if_false, Bool.and_self, if_true] at hm
      split at hm <;> cases hm
      next text htext =>
      rw [htext]
      exact hfile
    · intro h io
      cases ho : io.opens with
      | false => exact ⟨m, by simp [saveToDisk, ho], by simp [saves, ho]⟩
      | true =>
        have hsave : m.saveToDisk io = some (if io.writes && io.renames then { m with file := some m.data } else m) := by
          simp [saveToDisk, hd, ho, h]
        refine ⟨_, hsave, ?_⟩
        intro hs
        simp only [saves, hd, ho, Bool.not_false, Bool.true_and] at hs
        rw [if_pos hs]

end ConfigManager

end CloudeLoader.Config
