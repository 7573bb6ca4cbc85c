import CloudeLoader.Lib.JsonValue

/-!
# Paths in a value

A path is a list of names, and `get?` is what is found at its end.  A path leads through objects only.  A value is well
formed if the names in each of its objects are sorted, as in a map.
-/

namespace JsonValue

open List Option

variable {fields : List (List UInt8 × JsonValue)}

/-! ### Paths -/

def get? : JsonValue → List (List UInt8) → Option JsonValue
  | v, [] => some v
  | v, k :: p => (v.field? k).bind fun w => w.get? p

variable {v w : JsonValue} {k : List UInt8} {p q : List (List UInt8)}

@[simp] theorem get?_nil : v.get? [] = some v := by
  cases v <;> rfl

theorem get?_cons : v.get? (k :: p) = (v.field? k).bind fun w => w.get? p := by
  cases v <;> rfl

theorem get?_cons_of_some (h : v.field? k = some w) : v.get? (k :: p) = w.get? p := by
  rw [get?_cons, h, bind_some]

theorem get?_cons_of_none (h : v.field? k = none) : v.get? (k :: p) = none := by
  rw [get?_cons, h, bind_none]

theorem field?_of_not_isObject (h : v.isObject = false) : v.field? k = none := by
  cases v with
  | obj fields => cases h
  | _ => rfl

/-! ### Well-formed values -/

mutual

/-- The fields of every object are sorted and have different names. -/
def isWellFormed : JsonValue → Bool
  | arr xs => isWellFormedList xs
  | obj fields => decide (fields.Pairwise fun x y => x.1 < y.1) && isWellFormedFields fields
  | _ => true

def isWellFormedList : List JsonValue → Bool
  | [] => true
  | x :: xs => isWellFormed x && isWellFormedList xs

def isWellFormedFields : List (List UInt8 × JsonValue) → Bool
  | [] => true
  | (_, x) :: xs => isWellFormed x && isWellFormedFields xs

end

theorem isWellFormedFields_iff :
    isWellFormedFields fields = true ↔ ∀ x ∈ fields, x.2.isWellFormed = true := by
  induction fields with
  | nil => simp [isWellFormedFields]
  | cons x fields ih =>
    obtain ⟨k, x⟩ := x
    simp [isWellFormedFields, ih]

theorem isWellFormed_obj_iff :
    (obj fields).isWellFormed = true ↔ SortedFields fields ∧ ∀ x ∈ fields, x.2.isWellFormed = true := by
  rw [isWellFormed, Bool.and_eq_true, decide_eq_true_eq, isWellFormedFields_iff]
  exact Iff.rfl

theorem isWellFormed_cons (h : (obj ((k, v) :: fields)).isWellFormed = true) :
    (∀ x ∈ fields, k < x.1) ∧ v.isWellFormed = true ∧ (obj fields).isWellFormed = true := by
  obtain ⟨hs, hall⟩ := isWellFormed_obj_iff.1 h
  obtain ⟨hlt, hrest⟩ := pairwise_cons.1 hs
  exact ⟨hlt, hall _ mem_cons_self, isWellFormed_obj_iff.2 ⟨hrest, fun x hx => hall x (mem_cons_of_mem _ hx)⟩⟩

theorem mem_of_lookup (h : fields.lookup k = some v) : (k, v) ∈ fields := by
  induction fields with
  | nil => cases h
  | cons x fields ih =>
    obtain ⟨l, x⟩ := x
    rw [lookup_cons_ite] at h
    split at h
    · next hk =>
      subst hk
      cases h
      exact mem_cons_self
    · exact mem_cons_of_mem _ (ih h)

theorem isWellFormed_of_field? (h : v.isWellFormed = true) (hk : v.field? k = some w) : w.isWellFormed = true := by
  cases v with
  | obj fields => exact (isWellFormed_obj_iff.1 h).2 _ (mem_of_lookup hk)
  | _ => cases hk

theorem isObject_setField (v : JsonValue) (k : List UInt8) (w : JsonValue) : (v.setField k w).isObject = true := by
  cases v <;> rfl

theorem isWellFormed_setField (hv : v.isObject = true → v.isWellFormed = true) (hw : w.isWellFormed = true) :
    (v.setField k w).isWellFormed = true := by
  cases v with
  | obj fields =>
    obtain ⟨hsor, hall⟩ := isWellFormed_obj_iff.1 (hv rfl)
    refine isWellFormed_obj_iff.2 ⟨sortedFields_insertField hsor, fun x hx => ?_⟩
    rcases mem_insertField hx with rfl | hx
    · exact hw
    · exact hall x hx
  | _ => simp [setField, isWellFormed, isWellFormedFields, hw]

theorem insertField_of_lookup (hs : SortedFields fields)
    (h : fields.lookup k = some v) : insertField k v fields = fields := by
  induction fields with
  | nil => cases h
  | cons x fields ih =>
    obtain ⟨l, x⟩ := x
    obtain ⟨hx, hrest⟩ := pairwise_cons.1 hs
    rw [lookup_cons_ite] at h
    unfold insertField
    by_cases hk : k = l
    · rw [if_pos hk] at h ⊢
      rw [hk, some.inj h]
    · rw [if_neg hk] at h ⊢
      have hlt : ¬ k < l := fun hlt => List.lt_irrefl _ (List.lt_trans hlt (hx _ (mem_of_lookup h)))
      rw [if_neg hlt, ih hrest h]

theorem setField_of_field? (hv : v.isWellFormed = true) (h : v.field? k = some w) : v.setField k w = v := by
  cases v with
  | obj fields => exact congrArg obj (insertField_of_lookup (isWellFormed_obj_iff.1 hv).1 h)
  | _ => cases h

theorem isSorted_of_isWellFormed (hv : v.isWellFormed = true) (h : v.isObject = true) : v.IsSorted := by
  cases v with
  | obj fields => exact (isWellFormed_obj_iff.1 hv).1
  | _ => cases h

theorem setField_setField (hv : v.isWellFormed = true) (ho : v.isObject = true) (x : JsonValue) :
    (v.setField k x).setField k w = v.setField k w := by
  have hs := isSorted_of_isWellFormed hv ho
  refine (isSorted_setField (isSorted_setField hs)).ext (isSorted_setField hs) fun l => ?_
  rw [field?_setField, field?_setField, field?_setField]
  split <;> rfl

/-! ### Sizes -/

theorem length_insertField (hs : SortedFields fields) :
    (insertField k v fields).length = fields.length + if (fields.lookup k).isSome then 0 else 1 := by
  induction fields with
  | nil => rfl
  | cons x fields ih =>
    obtain ⟨l, x⟩ := x
    obtain ⟨hx, hrest⟩ := pairwise_cons.1 hs
    rw [lookup_cons_ite]
    unfold insertField
    by_cases hk : k = l
    · rw [if_pos hk, if_pos hk]
      rfl
    · rw [if_neg hk, if_neg hk]
      by_cases hlt : k < l
      · rw [if_pos hlt, lookup_eq_none_of_lt fun y hy => List.lt_trans hlt (hx y hy)]
        rfl
      · rw [if_neg hlt, length_cons, ih hrest, length_cons]
        omega

theorem size_setField (hv : v.IsSorted) : (v.setField k w).size = v.size + if v.contains k then 0 else 1 := by
  cases v with
  | obj fields => exact length_insertField hv
  | _ => exact hv.elim

theorem size_setField_le : (v.setField k w).size ≤ v.size + 1 := by
  have hlen : ∀ fields : List (List UInt8 × JsonValue), (insertField k w fields).length ≤ fields.length + 1 := by
    intro fields
    induction fields with
    | nil => exact Nat.le_refl _
    | cons x fields ih =>
      unfold insertField
      split
      · exact Nat.le_succ _
      · split
        · exact Nat.le_refl _
        · exact Nat.succ_le_succ ih
  cases v with
  | obj fields => exact hlen fields
  | _ => exact Nat.succ_le_succ (Nat.zero_le _)

theorem size_eraseField_le (k : List UInt8) : (v.eraseField k).size ≤ v.size := by
  cases v with
  | obj fields => exact length_filter_le _ _
  | _ => exact Nat.le_refl _

theorem isSorted_eraseField (hv : v.IsSorted) : (v.eraseField k).IsSorted := by
  cases v with
  | obj fields => exact hv.filter _
  | _ => exact hv.elim

/-! ### Covering

A value covers another one if all its paths lead somewhere, and to an object wherever it has an object. -/

mutual

def covers : JsonValue → JsonValue → Bool
  | v, obj fields => v.isObject && coversFields v fields
  | _, _ => true

def coversFields : JsonValue → List (List UInt8 × JsonValue) → Bool
  | _, [] => true
  | v, (k, d) :: fields => (match v.field? k with | none => false | some w => covers w d) && coversFields v fields

end

theorem coversFields_iff :
    coversFields v fields = true ↔ ∀ x ∈ fields, ∃ w, v.field? x.1 = some w ∧ covers w x.2 = true := by
  induction fields with
  | nil => simp [coversFields]
  | cons x fields ih =>
    obtain ⟨l, d⟩ := x
    rw [coversFields, Bool.and_eq_true, ih, forall_mem_cons]
    cases v.field? l with
    | none => simp
    | some w => simp

theorem covers_of_not_isObject {d : JsonValue} (h : d.isObject = false) : covers v d = true := by
  cases d with
  | obj fields => cases h
  | _ => rw [covers]; simp

theorem covers_obj_iff :
    covers v (obj fields) = true ↔
      v.isObject = true ∧ ∀ x ∈ fields, ∃ w, v.field? x.1 = some w ∧ covers w x.2 = true := by
  rw [covers, Bool.and_eq_true, coversFields_iff]

theorem covers_field? {d e : JsonValue} (h : covers v d = true) (hk : d.field? k = some e) :
    ∃ w, v.field? k = some w ∧ covers w e = true := by
  cases d with
  | obj fields => exact (covers_obj_iff.1 h).2 _ (mem_of_lookup hk)
  | _ => cases hk

theorem isObject_of_covers {d : JsonValue} (h : covers v d = true) (hd : d.isObject = true) : v.isObject = true := by
  cases d with
  | obj fields => exact (covers_obj_iff.1 h).1
  | _ => cases hd

theorem get?_of_covers {d e : JsonValue} (h : covers v d = true) (hp : d.get? p = some e) :
    ∃ w, v.get? p = some w ∧ covers w e = true := by
  induction p generalizing v d with
  | nil =>
    rw [get?_nil, some.injEq] at hp
    subst hp
    exact ⟨v, get?_nil, h⟩
  | cons k p ih =>
    rw [get?_cons, bind_eq_some_iff] at hp
    obtain ⟨d', hk, hp⟩ := hp
    obtain ⟨w, hw, hcov⟩ := covers_field? h hk
    obtain ⟨x, hx, hxe⟩ := ih hcov hp
    exact ⟨x, by rw [get?_cons_of_some hw, hx], hxe⟩

end JsonValue
