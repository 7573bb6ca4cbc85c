import CloudeLoader.Config.Laws
import Mathlib.Data.List.Nodup

/-!
# Defaults (`config.cc`, `default_cfg.cc`)

`merge_default_config` goes through the defaults and adds what is missing.
-/

namespace CloudeLoader.Config

open JsonValue Option
open List hiding contains

open Engine (Bytes utf8)

/-! ### Merging -/

structure Notice where
  key : Bytes
  oldValue : JsonValue
  newValue : JsonValue
  deriving DecidableEq

def fullKey (path key : Bytes) : Bytes := if path = [] then key else path ++ utf8 "." ++ key

mutual

def mergeFields : JsonValue → Bytes → List (Bytes × JsonValue) → JsonValue × List Notice
  | current, _, [] => (current, [])
  | current, path, (key, value) :: rest =>
    let one := mergeMember current key (fullKey path key) value
    let others := mergeFields one.1 path rest
    (others.1, one.2 ++ others.2)

def mergeMember : JsonValue → Bytes → Bytes → JsonValue → JsonValue × List Notice
  | current, key, path, .obj fields =>
    let below := mergeFields (child current key) path fields
    (current.setField key below.1, below.2)
  | current, key, path, value =>
    if current.contains key then (current, []) else (current.setField key value, [⟨path, .null, value⟩])

end

def mergeDefaultConfig (current incoming : JsonValue) (path : Bytes) : Option (JsonValue × List Notice) :=
  let fields := ConfigManager.items incoming
  if current.isObject || current.isNull || fields.isEmpty then some (mergeFields current path fields) else none

/-! ### What is found in the merged value -/

section Merge

variable {c d v w : JsonValue} {k l : Bytes} {path path' : Bytes} {fields : List (Bytes × JsonValue)} {p : List Bytes}

theorem mergeMember_leaf (h : v.isObject = false) :
    mergeMember c k path v = if c.contains k then (c, []) else (c.setField k v, [⟨path, .null, v⟩]) := by
  cases v with
  | obj fields => cases h
  | _ =>
    rw [mergeMember]
    simp

theorem field?_mergeMember_ne (h : l ≠ k) : (mergeMember c k path v).1.field? l = c.field? l := by
  cases hv : v.isObject with
  | false =>
    rw [mergeMember_leaf hv]
    split
    · rfl
    · rw [field?_setField, if_neg h]
  | true =>
    cases v with
    | obj fields => rw [mergeMember, field?_setField, if_neg h]
    | _ => cases hv

theorem field?_mergeFields_of_lookup_none (h : fields.lookup k = none) :
    (mergeFields c path fields).1.field? k = c.field? k := by
  induction fields generalizing c with
  | nil => rw [mergeFields]
  | cons x fields ih =>
    obtain ⟨l, v⟩ := x
    rw [lookup_cons_ite] at h
    split at h
    · cases h
    · next hk => rw [mergeFields, ih h, field?_mergeMember_ne hk]

theorem field?_mergeFields (hs : JsonValue.SortedFields fields) (h : fields.lookup k = some v) :
    (mergeFields c path fields).1.field? k = (mergeMember c k (fullKey path k) v).1.field? k := by
  induction fields generalizing c with
  | nil => cases h
  | cons x fields ih =>
    obtain ⟨l, x⟩ := x
    obtain ⟨hlt, hrest⟩ := pairwise_cons.1 hs
    rw [lookup_cons_ite] at h
    rw [mergeFields]
    split at h
    · next hk =>
      subst hk
      cases h
      exact field?_mergeFields_of_lookup_none (lookup_eq_none_of_lt hlt)
    · next hk =>
      rw [ih hrest h]
      cases hv : v.isObject with
      | false =>
        rw [mergeMember_leaf hv, mergeMember_leaf hv, contains, contains, field?_mergeMember_ne hk]
        split
        · exact field?_mergeMember_ne hk
        · rw [field?_setField, field?_setField, if_pos rfl, if_pos rfl]
      | true =>
        cases v with
        | obj below =>
          rw [mergeMember, mergeMember, field?_setField, field?_setField, if_pos rfl, if_pos rfl, child,
            child, field?_mergeMember_ne hk]
        | _ => cases hv

theorem field?_mergeMember_leaf (h : v.isObject = false) :
    (mergeMember c k path v).1.field? k = some ((c.field? k).getD v) := by
  rw [mergeMember_leaf h, contains]
  cases hk : c.field? k with
  | none => simp [field?_setField]
  | some w => simp [hk]

theorem field?_mergeMember_obj :
    (mergeMember c k path (.obj fields)).1.field? k = some (mergeFields (child c k) path fields).1 := by
  rw [mergeMember, field?_setField, if_pos rfl]

theorem isObject_mergeMember (h : c.isObject = true) : (mergeMember c k path v).1.isObject = true := by
  cases hv : v.isObject with
  | false =>
    rw [mergeMember_leaf hv]
    split
    · exact h
    · exact isObject_setField c k v
  | true =>
    cases v with
    | obj below =>
      exact isObject_setField ..
    | _ => cases hv

theorem isObject_mergeFields (h : c.isObject = true) : (mergeFields c path fields).1.isObject = true := by
  induction fields generalizing c with
  | nil => rwa [mergeFields]
  | cons x fields ih =>
    exact ih (isObject_mergeMember h)

/-! ### Paths of the merged value -/

/-- What is found at a path after merging, from what was there and what the defaults have. -/
def Completed (old default new : Option JsonValue) : Prop :=
  match default with
  | none => new = old
  | some d => if d.isObject then ∃ v, new = some v ∧ v.isObject = true else new = some (old.getD d)

theorem completed_mergeFields (hc : c.isObject = true) (hd : (obj fields).isWellFormed = true) (path : Bytes)
    (p : List Bytes) :
    Completed (c.get? p) ((obj fields).get? p) ((mergeFields c path fields).1.get? p) := by
  induction p generalizing c fields path with
  | nil =>
    exact ⟨_, rfl, isObject_mergeFields hc⟩
  | cons k p ih =>
    obtain ⟨hs, hall⟩ := isWellFormed_obj_iff.1 hd
    cases hk : fields.lookup k with
    | none =>
      rw [get?_cons_of_none (show (obj fields).field? k = none from hk)]
      show get? _ _ = _
      rw [get?_cons, field?_mergeFields_of_lookup_none hk, get?_cons]
    | some v =>
      have hwf := hall _ (mem_of_lookup hk)
      rw [get?_cons_of_some (show (obj fields).field? k = some v from hk)]
      cases hv : v.isObject with
      | true =>
        cases v with
        | obj below =>
          rw [get?_cons_of_some ((field?_mergeFields hs hk).trans field?_mergeMember_obj)]
          cases p with
          | nil => exact ⟨_, get?_nil, isObject_mergeFields isObject_child⟩
          | cons l p =>
            rw [← get?_child (cons_ne_nil l p)]
            exact ih isObject_child hwf _
        | _ => cases hv
      | false =>
        have hget : (mergeFields c path fields).1.field? k = some ((c.field? k).getD v) :=
          (field?_mergeFields hs hk).trans (field?_mergeMember_leaf hv)
        rw [get?_cons_of_some hget, get?_cons]
        cases p with
        | nil =>
          unfold Completed
          simp [hv]
        | cons l p =>
          have hnone : v.get? (l :: p) = none := get?_cons_of_none (field?_of_not_isObject hv)
          rw [hnone]
          cases c.field? k with
          | none => exact hnone
          | some w => rfl

end Merge

/-! ### What is announced -/

mutual

def leaves : JsonValue → List (List Bytes × JsonValue)
  | .obj fields => leavesFields fields
  | v => [([], v)]

def leavesFields : List (Bytes × JsonValue) → List (List Bytes × JsonValue)
  | [] => []
  | (k, v) :: fields => (leaves v).map (fun leaf => (k :: leaf.1, leaf.2)) ++ leavesFields fields

end

def announce (path : Bytes) (leaf : List Bytes × JsonValue) : Notice := ⟨leaf.1.foldl fullKey path, .null, leaf.2⟩

def missing (current : JsonValue) (path : Bytes) (defaults : List (List Bytes × JsonValue)) : List Notice :=
  (defaults.filter fun leaf => (current.get? leaf.1).isNone).map (announce path)

section Notices

variable {c c' v : JsonValue} {k : Bytes} {path : Bytes} {fields : List (Bytes × JsonValue)}

theorem leaves_of_not_isObject (h : v.isObject = false) : leaves v = [([], v)] := by
  cases v with
  | obj fields => cases h
  | _ =>
    rw [leaves]
    simp

theorem exists_of_mem_leavesFields {leaf} (h : leaf ∈ leavesFields fields) :
    ∃ k p, leaf.1 = k :: p ∧ ∃ v, (k, v) ∈ fields := by
  induction fields with
  | nil =>
    cases h
  | cons x fields ih =>
    obtain ⟨k, v⟩ := x
    rw [leavesFields, mem_append, List.mem_map] at h
    rcases h with ⟨l, -, rfl⟩ | h
    · exact ⟨k, l.1, rfl, v, mem_cons_self⟩
    · obtain ⟨k', p, hp, v', hv'⟩ := ih h
      exact ⟨k', p, hp, v', mem_cons_of_mem _ hv'⟩

theorem missing_congr {defaults}
    (h : ∀ leaf ∈ defaults, c.get? leaf.1 = c'.get? leaf.1) : missing c path defaults = missing c' path defaults := by
  unfold missing
  rw [filter_congr fun leaf hleaf => by rw [h leaf hleaf]]

theorem missing_append (defaults defaults' : List (List Bytes × JsonValue)) :
    missing c path (defaults ++ defaults') = missing c path defaults ++ missing c path defaults' := by
  unfold missing
  rw [filter_append, map_append]

theorem missing_map_cons {defaults} (hne : ∀ leaf ∈ defaults, leaf.1 ≠ []) :
    missing c path (defaults.map fun leaf => (k :: leaf.1, leaf.2)) = missing (child c k) (fullKey path k) defaults := by
  unfold missing
  rw [List.filter_map, List.map_map]
  refine congrArg₂ List.map rfl (List.filter_congr fun leaf hleaf => ?_)
  show (c.get? (k :: leaf.1)).isNone = _
  rw [get?_child (hne leaf hleaf)]

mutual

theorem notices_mergeMember (c : JsonValue) (k path : Bytes) (v : JsonValue) (hv : v.isWellFormed = true) :
    (mergeMember c k (fullKey path k) v).2 = missing c path ((leaves v).map fun leaf => (k :: leaf.1, leaf.2)) := by
  cases v with
  | obj fields =>
    rw [mergeMember, leaves, notices_mergeFields _ _ fields hv, missing_map_cons]
    intro leaf hleaf
    obtain ⟨l, p, hp, -⟩ := exists_of_mem_leavesFields hleaf
    rw [hp]
    exact cons_ne_nil l p
  | _ =>
    rw [mergeMember_leaf rfl, leaves_of_not_isObject rfl]
    unfold missing
    cases hk : c.field? k with
    | none => simp [contains, hk, get?_cons, announce]
    | some w => simp [contains, hk, get?_cons]

theorem notices_mergeFields (c : JsonValue) (path : Bytes) (fields : List (Bytes × JsonValue))
    (hd : (obj fields).isWellFormed = true) :
    (mergeFields c path fields).2 = missing c path (leavesFields fields) := by
  cases fields with
  | nil => rw [mergeFields, leavesFields]; rfl
  | cons x fields =>
    obtain ⟨k, v⟩ := x
    obtain ⟨hlt, hv, hwf⟩ := isWellFormed_cons hd
    rw [mergeFields, leavesFields, missing_append, ← notices_mergeMember c k path v hv,
      notices_mergeFields _ path fields hwf]
    refine congrArg₂ _ rfl (missing_congr fun leaf hleaf => ?_)
    obtain ⟨l, p, hp, v', hv'⟩ := exists_of_mem_leavesFields hleaf
    have hne : l ≠ k := fun heq => List.lt_irrefl k (heq ▸ hlt _ hv')
    rw [hp, get?_cons, get?_cons, field?_mergeMember_ne hne]

end

theorem get?_obj_cons {l p} : (obj fields).get? (l :: p) = (fields.lookup l).bind fun w => w.get? p :=
  get?_cons

mutual

theorem mem_leaves_iff (v : JsonValue) (hv : v.isWellFormed = true) (p : List Bytes) (w : JsonValue) :
    (p, w) ∈ leaves v ↔ v.get? p = some w ∧ w.isObject = false := by
  cases v with
  | obj fields => exact mem_leavesFields_iff fields hv p w
  | _ =>
    rw [leaves_of_not_isObject rfl, mem_singleton, Prod.mk.injEq]
    cases p with
    | nil =>
      rw [get?_nil, some.injEq]
      constructor
      · rintro ⟨-, rfl⟩
        exact ⟨rfl, rfl⟩
      · rintro ⟨rfl, -⟩
        exact ⟨rfl, rfl⟩
    | cons k p =>
      rw [get?_cons_of_none (field?_of_not_isObject rfl)]
      simp

theorem mem_leavesFields_iff (fields : List (Bytes × JsonValue)) (hd : (obj fields).isWellFormed = true)
    (p : List Bytes) (w : JsonValue) :
    (p, w) ∈ leavesFields fields ↔ (obj fields).get? p = some w ∧ w.isObject = false := by
  cases p with
  | nil =>
    -- an object is no leaf, and no leaf of its members is at its own place
    rw [get?_nil, some.injEq]
    constructor
    · intro h
      obtain ⟨k, p, hp, -⟩ := exists_of_mem_leavesFields h
      cases hp
    · rintro ⟨rfl, h⟩
      cases h
  | cons l p =>
    cases fields with
    | nil =>
      rw [leavesFields, get?_cons_of_none rfl]
      simp
    | cons x fields =>
      obtain ⟨k, x⟩ := x
      obtain ⟨hlt, hv, hwf⟩ := isWellFormed_cons hd
      have ihx := mem_leaves_iff x hv p w
      have ih := mem_leavesFields_iff fields hwf (l :: p) w
      rw [leavesFields, mem_append, ih, get?_obj_cons, get?_obj_cons, lookup_cons_ite]
      by_cases hl : l = k
      · subst hl
        rw [if_pos rfl, lookup_eq_none_of_lt hlt, bind_some, ← ihx]
        simp
      · rw [if_neg hl]
        simp [Ne.symm hl]

end

mutual

theorem nodup_leaves (v : JsonValue) (hv : v.isWellFormed = true) : (leaves v).Nodup := by
  cases v with
  | obj fields => exact nodup_leavesFields fields hv
  | _ =>
    rw [leaves_of_not_isObject rfl]
    exact nodup_singleton _

theorem nodup_leavesFields (fields : List (Bytes × JsonValue)) (hd : (obj fields).isWellFormed = true) :
    (leavesFields fields).Nodup := by
  cases fields with
  | nil =>
    rw [leavesFields]
    exact nodup_nil
  | cons x fields =>
    obtain ⟨k, x⟩ := x
    obtain ⟨hlt, hv, hwf⟩ := isWellFormed_cons hd
    have hinj : Function.Injective fun leaf : List Bytes × JsonValue => (k :: leaf.1, leaf.2) := by
      rintro ⟨p, v⟩ ⟨q, w⟩ h
      simpa using h
    rw [leavesFields, nodup_append]
    refine ⟨(nodup_leaves x hv).map hinj, nodup_leavesFields fields hwf, ?_⟩
    -- the first names differ
    intro a ha b hb hab
    obtain ⟨leaf, -, rfl⟩ := mem_map.1 ha
    obtain ⟨l, p, hp, v, hv⟩ := exists_of_mem_leavesFields hb
    rw [← hab] at hp
    obtain ⟨rfl, -⟩ := List.cons.inj hp
    exact List.lt_irrefl k (hlt (k, v) hv)

end

end Notices

/-! ### Merging once more -/

section Again

variable {c d m v : JsonValue} {k : Bytes} {path : Bytes} {fields : List (Bytes × JsonValue)}

theorem isWellFormed_child (h : c.isWellFormed = true) : (child c k).isWellFormed = true := by
  unfold child
  cases hk : (c.field? k).filter isObject with
  | none => rfl
  | some v => exact isWellFormed_of_field? h (filter_eq_some_iff.1 hk).1

mutual

theorem isWellFormed_mergeMember (c : JsonValue) (k path : Bytes) (v : JsonValue) (hc : c.isWellFormed = true)
    (hv : v.isWellFormed = true) : (mergeMember c k path v).1.isWellFormed = true := by
  cases v with
  | obj fields =>
    rw [mergeMember]
    exact isWellFormed_setField (fun _ => hc) (isWellFormed_mergeFields _ _ fields (isWellFormed_child hc)
      (isWellFormed_obj_iff.1 hv).2)
  | _ =>
    rw [mergeMember_leaf rfl]
    split
    · exact hc
    · exact isWellFormed_setField (fun _ => hc) hv

theorem isWellFormed_mergeFields (c : JsonValue) (path : Bytes) (fields : List (Bytes × JsonValue))
    (hc : c.isWellFormed = true) (hall : ∀ x ∈ fields, x.2.isWellFormed = true) :
    (mergeFields c path fields).1.isWellFormed = true := by
  cases fields with
  | nil => rwa [mergeFields]
  | cons x fields =>
    obtain ⟨k, v⟩ := x
    rw [mergeFields]
    refine isWellFormed_mergeFields _ path fields ?_ fun x hx => hall x (mem_cons_of_mem _ hx)
    exact isWellFormed_mergeMember c k _ v hc (hall _ mem_cons_self)

end

mutual

theorem mergeMember_of_covers (m : JsonValue) (k path : Bytes) (v : JsonValue) (hm : m.isWellFormed = true) {w}
    (hk : m.field? k = some w) (hw : w.covers v = true) : mergeMember m k path v = (m, []) := by
  cases v with
  | obj fields =>
    obtain ⟨hobj, hcov⟩ := covers_obj_iff.1 hw
    have hchl : child m k = w := by
      unfold child
      rw [hk, filter_some, if_pos hobj, getD_some]
    rw [mergeMember, hchl, mergeFields_of_covers w path fields (isWellFormed_of_field? hm hk) hcov]
    show (m.setField k w, _) = _
    rw [setField_of_field? hm hk]
  | _ => rw [mergeMember_leaf rfl, contains, hk, isSome_some, if_pos rfl]

theorem mergeFields_of_covers (m : JsonValue) (path : Bytes) (fields : List (Bytes × JsonValue)) (hm : m.isWellFormed = true)
    (hcov : ∀ x ∈ fields, ∃ w, m.field? x.1 = some w ∧ w.covers x.2 = true) : mergeFields m path fields = (m, []) := by
  cases fields with
  | nil => rw [mergeFields]
  | cons x fields =>
    obtain ⟨k, v⟩ := x
    obtain ⟨w, hk, hw⟩ := hcov _ mem_cons_self
    rw [mergeFields, mergeMember_of_covers m k _ v hm hk hw,
      mergeFields_of_covers m path fields hm fun x hx => hcov x (mem_cons_of_mem _ hx)]
    rfl

end

theorem lookup_of_mem (hs : JsonValue.SortedFields fields) (h : (k, v) ∈ fields) : fields.lookup k = some v := by
  induction fields with
  | nil => cases h
  | cons x fields ih =>
    obtain ⟨l, x⟩ := x
    obtain ⟨hlt, hrest⟩ := List.pairwise_cons.1 hs
    rw [lookup_cons_ite]
    rcases List.mem_cons.1 h with heq | h
    · obtain ⟨rfl, rfl⟩ := Prod.mk.inj heq
      rw [if_pos rfl]
    · have hne : k ≠ l := fun heq => List.lt_irrefl l (heq ▸ hlt _ h)
      rw [if_neg hne, ih hrest h]

theorem covers_of_rounds (hc : c.isObject = true) (hs : JsonValue.SortedFields fields)
    (h : ∀ x ∈ fields, ∀ c path, ∃ w, (mergeMember c x.1 path x.2).1.field? x.1 = some w ∧ w.covers x.2 = true) :
    (mergeFields c path fields).1.covers (.obj fields) = true := by
  refine covers_obj_iff.2 ⟨isObject_mergeFields hc, fun x hx => ?_⟩
  rw [field?_mergeFields hs (lookup_of_mem hs hx)]
  exact h x hx c _

mutual

theorem covers_mergeMember (c : JsonValue) (k path : Bytes) (v : JsonValue) (hv : v.isWellFormed = true) :
    ∃ w, (mergeMember c k path v).1.field? k = some w ∧ w.covers v = true := by
  cases v with
  | obj fields =>
    obtain ⟨hs, hall⟩ := isWellFormed_obj_iff.1 hv
    exact ⟨_, field?_mergeMember_obj, covers_of_rounds isObject_child hs (covers_mergeMembers fields hall)⟩
  | _ => exact ⟨_, field?_mergeMember_leaf rfl, covers_of_not_isObject rfl⟩

theorem covers_mergeMembers (fields : List (Bytes × JsonValue)) (hall : ∀ x ∈ fields, x.2.isWellFormed = true) :
    ∀ x ∈ fields, ∀ c path, ∃ w, (mergeMember c x.1 path x.2).1.field? x.1 = some w ∧ w.covers x.2 = true := by
  cases fields with
  | nil =>
    intro x hx
    cases hx
  | cons y fields =>
    obtain ⟨k, v⟩ := y
    intro x hx c path
    rcases mem_cons.1 hx with rfl | hx
    · exact covers_mergeMember c k path v (hall _ mem_cons_self)
    · exact covers_mergeMembers fields (fun x hx => hall x (mem_cons_of_mem _ hx)) x hx c path

end

theorem covers_mergeFields (hc : c.isObject = true) (hd : (obj fields).isWellFormed = true) :
    (mergeFields c path fields).1.covers (.obj fields) = true :=
  covers_of_rounds hc (isWellFormed_obj_iff.1 hd).1
    (covers_mergeMembers fields (isWellFormed_obj_iff.1 hd).2)

mutual

theorem everywhere_mergeMember {scalar : JsonValue → Bool} {name : Bytes → Bool} (c : JsonValue) (k path : Bytes) (v : JsonValue)
    (hc : c.everywhere scalar name = true) (hk : name k = true) (hv : v.everywhere scalar name = true) :
    (mergeMember c k path v).1.everywhere scalar name = true := by
  cases v with
  | obj fields =>
    rw [mergeMember]
    refine everywhere_setField hk ?_ fun _ => hc
    exact everywhere_mergeFields _ path fields (everywhere_child (fun _ => hc) k) (by simpa [everywhere] using hv)
  | _ =>
    rw [mergeMember_leaf rfl]
    split
    · exact hc
    · exact everywhere_setField hk hv fun _ => hc

theorem everywhere_mergeFields {scalar : JsonValue → Bool} {name : Bytes → Bool} (c : JsonValue) (path : Bytes)
    (fields : List (Bytes × JsonValue)) (hc : c.everywhere scalar name = true)
    (hall : everywhereFields scalar name fields = true) :
    (mergeFields c path fields).1.everywhere scalar name = true := by
  cases fields with
  | nil => rwa [mergeFields]
  | cons x fields =>
    obtain ⟨k, v⟩ := x
    simp only [everywhereFields, Bool.and_eq_true] at hall
    obtain ⟨hk, hv, hrest⟩ := hall
    rw [mergeFields]
    exact everywhere_mergeFields _ path fields (everywhere_mergeMember c k _ v hc hk hv) hrest

end

end Again

/-! ### Merging completes -/

structure Completion (current defaults merged : JsonValue) : Prop where
  complete : ∀ p d, defaults.get? p = some d → ∃ v, merged.get? p = some v ∧ (d.isObject = true → v.isObject = true)
  kept : ∀ p v, current.get? p = some v → (∀ d, defaults.get? p = some d → d.isObject = false) → merged.get? p = some v
  replaced : ∀ p v, current.get? p = some v → merged.get? p ≠ some v →
    (∃ d, defaults.get? p = some d ∧ d.isObject = true) ∧ ∃ w, merged.get? p = some w ∧ w.isObject = true
  added : ∀ p v, current.get? p = none → merged.get? p = some v →
    ∃ d, defaults.get? p = some d ∧ if d.isObject then v.isObject = true else v = d

theorem Completion.of_completed {current defaults merged}
    (h : ∀ p, Completed (current.get? p) (defaults.get? p) (merged.get? p)) : Completion current defaults merged where
  complete p d hd := by
    have := h p
    rw [hd] at this
    simp only [Completed] at this
    split at this
    · obtain ⟨v, hv, hobj⟩ := this
      exact ⟨v, hv, fun _ => hobj⟩
    · next hobj => exact ⟨_, this, fun hd => absurd hd hobj⟩
  kept p v hv hleaf := by
    have := h p
    rw [hv] at this
    cases hd : defaults.get? p with
    | none =>
      rw [hd] at this
      exact this
    | some d =>
      rw [hd] at this
      simpa [Completed, hleaf d hd] using this
  replaced p v hv hne := by
    have := h p
    rw [hv] at this
    cases hd : defaults.get? p with
    | none =>
      rw [hd] at this
      exact absurd this hne
    | some d =>
      rw [hd] at this
      simp only [Completed] at this
      split at this
      · next hobj => exact ⟨⟨d, rfl, hobj⟩, this⟩
      · exact absurd this hne
  added p v hv hnew := by
    have := h p
    rw [hv, hnew] at this
    cases hd : defaults.get? p with
    | none =>
      rw [hd] at this
      cases this
    | some d =>
      rw [hd] at this
      refine ⟨d, rfl, ?_⟩
      simp only [Completed] at this
      split at this
      · next hobj =>
        obtain ⟨w, hw, hwobj⟩ := this
        cases hw
        rw [if_pos hobj]
        exact hwobj
      · next hobj =>
        rw [if_neg hobj]
        exact some.inj this

/-- Merging completes an object with the defaults, announces each leaf that was missing once, and does nothing the second
time. -/
theorem merge_completes {current defaults : JsonValue} (hc : current.isObject = true) (hd : defaults.isObject = true)
    (hcwf : current.isWellFormed = true) (hdwf : defaults.isWellFormed = true) (path : Bytes) :
    ∃ (merged : JsonValue) (added : List (List Bytes × JsonValue)),
      mergeDefaultConfig current defaults path = some (merged, added.map (announce path)) ∧
      Completion current defaults merged ∧
      (∀ p v, (p, v) ∈ added ↔ defaults.get? p = some v ∧ v.isObject = false ∧ current.get? p = none) ∧ added.Nodup ∧
      mergeDefaultConfig merged defaults path = some (merged, []) := by
  cases defaults with
  | obj fields =>
    have hmer : (mergeFields current path fields).1.isObject = true := isObject_mergeFields hc
    have hwf := isWellFormed_mergeFields current path fields hcwf (isWellFormed_obj_iff.1 hdwf).2
    have hcov : (mergeFields current path fields).1.covers (.obj fields) = true := covers_mergeFields hc hdwf
    refine ⟨(mergeFields current path fields).1, (leavesFields fields).filter fun leaf => (current.get? leaf.1).isNone,
      ?_, .of_completed fun p => completed_mergeFields hc hdwf path p, ?_, (nodup_leavesFields fields hdwf).filter _, ?_⟩
    · have hnot := notices_mergeFields current path fields hdwf
      simp only [mergeDefaultConfig, hc, ConfigManager.items, Bool.true_or, if_true]
      rw [← missing, ← hnot]
    · intro p v
      rw [mem_filter, mem_leavesFields_iff fields hdwf]
      simp [and_assoc]
    · have hagn := mergeFields_of_covers _ path fields hwf (covers_obj_iff.1 hcov).2
      simp [mergeDefaultConfig, hmer, ConfigManager.items, hagn]
  | _ => cases hd

theorem merge_completes_replaces :
    ∃ (merged : JsonValue) (added : List (List Bytes × JsonValue)),
      mergeDefaultConfig (.obj [(utf8 "a", .num 5), (utf8 "x", .num 1)]) (.obj [(utf8 "a", .obj [(utf8 "b", .null)])]) [] =
        some (merged, added.map (announce [])) ∧
      merged.get? [utf8 "x"] = some (.num 1) ∧ ([utf8 "a", utf8 "b"], .null) ∈ added ∧
      mergeDefaultConfig merged (.obj [(utf8 "a", .obj [(utf8 "b", .null)])]) [] = some (merged, []) := by
  obtain ⟨merged, added, hmer, hcom, hadd, -, hagn⟩ :=
    @merge_completes (.obj [(utf8 "a", .num 5), (utf8 "x", .num 1)]) (.obj [(utf8 "a", .obj [(utf8 "b", .null)])]) rfl rfl
      (by decide +kernel) (by decide +kernel) []
  refine ⟨merged, added, hmer, hcom.kept _ _ (by decide +kernel) fun d hd => ?_, (hadd _ _).2 ?_, hagn⟩
  · rw [get?_cons_of_none (by decide +kernel)] at hd
    cases hd
  · decide +kernel

/-! ### The defaults of the loader -/

def getDefaultConfig (hasShownWelcomeModal : Bool) : JsonValue :=
  .obj [
    (utf8 "general", .obj [
      (utf8 "accentColor", .str (utf8 "DEFAULT_ACCENT_COLOR")),
      (utf8 "checkForCloudeUpdates", .bool false),
      (utf8 "checkForPluginAndThemeUpdates", .bool false),
      (utf8 "cloudeUpdateChannel", .str (utf8 "stable")),
      (utf8 "injectCSS", .bool true),
      (utf8 "injectJavascript", .bool true),
      (utf8 "onCloudeUpdate", .num 0),
      (utf8 "shouldShowThemePluginUpdateNotifications", .bool false)]),
    (utf8 "misc", .obj [(utf8 "hasShownWelcomeModal", .bool hasShownWelcomeModal)]),
    (utf8 "network", .obj [
      (utf8 "disabled", .bool true),
      (utf8 "proxy", .str []),
      (utf8 "proxyPassword", .str []),
      (utf8 "proxyUsername", .str [])]),
    (utf8 "notifications", .obj [
      (utf8 "showNotifications", .bool true),
      (utf8 "showPluginNotifications", .bool true),
      (utf8 "showUpdateNotifications", .bool true)]),
    (utf8 "themes", .obj [
      (utf8 "activeTheme", .str (utf8 "default")),
      (utf8 "allowedScripts", .bool true),
      (utf8 "allowedStyles", .bool true)])]

theorem isWellFormed_getDefaultConfig (shown : Bool) : (getDefaultConfig shown).isWellFormed = true := by
  cases shown <;> decide +kernel

theorem isTextual_getDefaultConfig (shown : Bool) : (getDefaultConfig shown).isTextual = true := by
  have htext : ∀ s, isText (utf8 s) = true := Engine.isUtf8_utf8
  have hemp : isText [] = true := htext ""
  simp [getDefaultConfig, isTextual, everywhere, everywhereFields, textLeaf, htext,
    hemp]

end CloudeLoader.Config
