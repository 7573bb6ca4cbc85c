import Mathlib.Algebra.Group.Nat.Defs
import Mathlib.Data.Rat.Defs
import Mathlib.Data.List.Basic
import Mathlib.Tactic.Common

/-!
# JSON values in memory

The values a program holds, as opposed to the documents that can be written as text.  A string in memory is any sequence
of bytes, a number may be a NaN or infinite, and there are binary values.
-/

/-- A value.  Numbers are compared by what they are, so integers and finite floating-point numbers are one kind.  The members
of an object are in the order of their names. -/
inductive JsonValue where
  | null
  | bool (b : Bool)
  | num (q : ℚ)
  | nonFinite (bits : UInt64)
  | str (s : List UInt8)
  | bin (bytes : List UInt8)
  | arr (xs : List JsonValue)
  | obj (fields : List (List UInt8 × JsonValue))

namespace JsonValue

open List

variable {j : JsonValue} {k : List UInt8}

def isText (bytes : List UInt8) : Bool := ByteArray.validateUTF8 ⟨bytes.toArray⟩

def isNull : JsonValue → Bool
  | null => true
  | _ => false

def isObject : JsonValue → Bool
  | obj _ => true
  | _ => false

/-! ### Equality -/

mutual

def same : JsonValue → JsonValue → Bool
  | null, null => true
  | bool a, bool b => a == b
  | num a, num b => a == b
  | nonFinite a, nonFinite b => a == b
  | str a, str b => a == b
  | bin a, bin b => a == b
  | arr xs, arr ys => sameList xs ys
  | obj xs, obj ys => sameFields xs ys
  | _, _ => false

def sameList : List JsonValue → List JsonValue → Bool
  | [], [] => true
  | x :: xs, y :: ys => same x y && sameList xs ys
  | _, _ => false

def sameFields : List (List UInt8 × JsonValue) → List (List UInt8 × JsonValue) → Bool
  | [], [] => true
  | (k, x) :: xs, (l, y) :: ys => k == l && (same x y && sameFields xs ys)
  | _, _ => false

end

mutual

theorem same_iff (v w : JsonValue) : same v w = true ↔ v = w := by
  cases v with
  | arr xs =>
    cases w with
    | arr ys => simp [same, sameList_iff xs ys]
    | _ => simp [same]
  | obj xs =>
    cases w with
    | obj ys => simp [same, sameFields_iff xs ys]
    | _ => simp [same]
  | _ => cases w <;> simp [same]

theorem sameList_iff (xs ys : List JsonValue) : sameList xs ys = true ↔ xs = ys := by
  cases xs with
  | nil => cases ys <;> simp [sameList]
  | cons x xs =>
    cases ys with
    | nil => simp [sameList]
    | cons y ys => simp [sameList, same_iff x y, sameList_iff xs ys]

theorem sameFields_iff (xs ys : List (List UInt8 × JsonValue)) : sameFields xs ys = true ↔ xs = ys := by
  cases xs with
  | nil => cases ys <;> simp [sameFields]
  | cons x xs =>
    obtain ⟨k, v⟩ := x
    cases ys with
    | nil => simp [sameFields]
    | cons y ys => simp [sameFields, same_iff v y.2, sameFields_iff xs ys, Prod.ext_iff, and_assoc]

end

instance instDecidableEq : DecidableEq JsonValue := fun v w => decidable_of_iff _ (same_iff v w)

/-! ### Parts of a value -/

mutual

/-- What is neither an array nor an object, and the names of the members, meet the two conditions in the whole value. -/
def everywhere (scalar : JsonValue → Bool) (name : List UInt8 → Bool) : JsonValue → Bool
  | arr xs => everywhereList scalar name xs
  | obj fields => everywhereFields scalar name fields
  | v => scalar v

def everywhereList (scalar : JsonValue → Bool) (name : List UInt8 → Bool) : List JsonValue → Bool
  | [] => true
  | x :: xs => everywhere scalar name x && everywhereList scalar name xs

def everywhereFields (scalar : JsonValue → Bool) (name : List UInt8 → Bool) : List (List UInt8 × JsonValue) → Bool
  | [] => true
  | (k, x) :: xs => name k && (everywhere scalar name x && everywhereFields scalar name xs)

end

def textLeaf : JsonValue → Bool
  | str s => isText s
  | _ => true

def isTextual : JsonValue → Bool := everywhere textLeaf isText

def losslessLeaf : JsonValue → Bool
  | nonFinite _ => false
  | bin _ => false
  | _ => true

def plainLeaf : JsonValue → Bool
  | num _ => false
  | nonFinite _ => false
  | bin _ => false
  | _ => true

/-- There are no numbers and no binary values. -/
def isPlain : JsonValue → Bool := everywhere plainLeaf fun _ => true

/-- There are no binary values and no numbers that are not finite. -/
def isLossless : JsonValue → Bool := everywhere losslessLeaf fun _ => true

mutual

def written : JsonValue → JsonValue
  | nonFinite _ => null
  | bin bytes =>
    obj [("bytes".toByteArray.data.toList, arr (bytes.map fun b => num b.toNat)), ("subtype".toByteArray.data.toList, null)]
  | arr xs => arr (writtenList xs)
  | obj fields => obj (writtenFields fields)
  | v => v

def writtenList : List JsonValue → List JsonValue
  | [] => []
  | x :: xs => written x :: writtenList xs

def writtenFields : List (List UInt8 × JsonValue) → List (List UInt8 × JsonValue)
  | [] => []
  | (k, x) :: xs => (k, written x) :: writtenFields xs

end

def dump (v : JsonValue) : Option JsonValue := if v.isTextual then some v.written else none

mutual

theorem written_eq_self_iff (v : JsonValue) : v.written = v ↔ v.isLossless = true := by
  cases v with
  | arr xs =>
    rw [written, isLossless, everywhere, arr.injEq]
    exact writtenList_eq_self_iff xs
  | obj fields =>
    rw [written, isLossless, everywhere, obj.injEq]
    exact writtenFields_eq_self_iff fields
  | _ => simp [written, isLossless, everywhere, losslessLeaf]

theorem writtenList_eq_self_iff (xs : List JsonValue) :
    writtenList xs = xs ↔ everywhereList losslessLeaf (fun _ => true) xs = true := by
  cases xs with
  | nil => simp [writtenList, everywhereList]
  | cons x xs =>
    rw [writtenList, everywhereList, cons.injEq, Bool.and_eq_true, written_eq_self_iff x, writtenList_eq_self_iff xs]
    exact Iff.rfl

theorem writtenFields_eq_self_iff (fields : List (List UInt8 × JsonValue)) :
    writtenFields fields = fields ↔ everywhereFields losslessLeaf (fun _ => true) fields = true := by
  cases fields with
  | nil => simp [writtenFields, everywhereFields]
  | cons x xs =>
    obtain ⟨k, v⟩ := x
    rw [writtenFields, everywhereFields, cons.injEq, Prod.mk.injEq, Bool.true_and, Bool.and_eq_true,
      written_eq_self_iff v, writtenFields_eq_self_iff xs]
    exact ⟨fun h => ⟨h.1.2, h.2⟩, fun h => ⟨⟨rfl, h.1⟩, h.2⟩⟩

end

mutual

theorem everywhere_and (scalar scalar' : JsonValue → Bool) (name name' : List UInt8 → Bool) (v : JsonValue) :
    everywhere (fun v => scalar v && scalar' v) (fun k => name k && name' k) v =
      (everywhere scalar name v && everywhere scalar' name' v) := by
  cases v with
  | arr xs => exact everywhereList_and scalar scalar' name name' xs
  | obj fields => exact everywhereFields_and scalar scalar' name name' fields
  | _ => rfl

theorem everywhereList_and (scalar scalar' : JsonValue → Bool) (name name' : List UInt8 → Bool) (xs : List JsonValue) :
    everywhereList (fun v => scalar v && scalar' v) (fun k => name k && name' k) xs =
      (everywhereList scalar name xs && everywhereList scalar' name' xs) := by
  cases xs with
  | nil => rfl
  | cons x xs =>
    simp only [everywhereList, everywhere_and scalar scalar' name name' x, everywhereList_and scalar scalar' name name' xs]
    ac_rfl

theorem everywhereFields_and (scalar scalar' : JsonValue → Bool) (name name' : List UInt8 → Bool)
    (fields : List (List UInt8 × JsonValue)) :
    everywhereFields (fun v => scalar v && scalar' v) (fun k => name k && name' k) fields =
      (everywhereFields scalar name fields && everywhereFields scalar' name' fields) := by
  cases fields with
  | nil => rfl
  | cons x fields =>
    obtain ⟨k, v⟩ := x
    simp only [everywhereFields, everywhere_and scalar scalar' name name' v,
      everywhereFields_and scalar scalar' name name' fields]
    ac_rfl

end

/-- All strings are text, and nothing is lost when the value is written. -/
def isFaithful : JsonValue → Bool :=
  everywhere (fun v => textLeaf v && losslessLeaf v) isText

theorem isFaithful_eq (v : JsonValue) : v.isFaithful = (v.isTextual && v.isLossless) := by
  have h := everywhere_and textLeaf losslessLeaf isText (fun _ => true) v
  simp only [Bool.and_true] at h
  exact h

theorem dump_eq_self_iff (v : JsonValue) : v.dump = some v ↔ v.isFaithful = true := by
  rw [isFaithful_eq, Bool.and_eq_true]
  unfold dump
  split
  · next ht => rw [Option.some.injEq, written_eq_self_iff, and_iff_right ht]
  · next ht => simp [ht]

/-! ### Members of objects -/

def field? : JsonValue → List UInt8 → Option JsonValue
  | obj fields, name => fields.lookup name
  | _, _ => none

def contains (v : JsonValue) (name : List UInt8) : Bool := (v.field? name).isSome

def insertField (name : List UInt8) (v : JsonValue) :
    List (List UInt8 × JsonValue) → List (List UInt8 × JsonValue)
  | [] => [(name, v)]
  | (k, x) :: rest =>
    if name = k then (name, v) :: rest
    else if name < k then (name, v) :: (k, x) :: rest
    else (k, x) :: insertField name v rest

def setField : JsonValue → List UInt8 → JsonValue → JsonValue
  | obj fields, name, v => obj (insertField name v fields)
  | _, name, v => obj [(name, v)]

def eraseField : JsonValue → List UInt8 → JsonValue
  | obj fields, name => obj (fields.filter (·.1 ≠ name))
  | v, _ => v

def size : JsonValue → Nat
  | null => 0
  | arr xs => xs.length
  | obj fields => fields.length
  | _ => 1

mutual

def mapText (f : List UInt8 → List UInt8) : JsonValue → JsonValue
  | str s => str (f s)
  | arr xs => arr (mapTextList f xs)
  | obj fields => obj (mapTextFields f fields)
  | v => v

def mapTextList (f : List UInt8 → List UInt8) : List JsonValue → List JsonValue
  | [] => []
  | x :: xs => mapText f x :: mapTextList f xs

def mapTextFields (f : List UInt8 → List UInt8) : List (List UInt8 × JsonValue) → List (List UInt8 × JsonValue)
  | [] => []
  | (k, x) :: xs => insertField (f k) (mapText f x) (mapTextFields f xs)

end

theorem lookup_cons_ite (name k : List UInt8) (x : JsonValue) (fields : List (List UInt8 × JsonValue)) :
    ((k, x) :: fields).lookup name = if name = k then some x else fields.lookup name := by
  rw [lookup_cons]
  by_cases h : name = k
  · simp [h]
  · have : (name == k) = false := by simpa using h
    simp [h, this]

theorem lookup_insertField (name other : List UInt8) (v : JsonValue) (fields : List (List UInt8 × JsonValue)) :
    (insertField name v fields).lookup other = if other = name then some v else fields.lookup other := by
  induction fields with
  | nil => exact lookup_cons_ite other name v []
  | cons x fields ih =>
    obtain ⟨k, x⟩ := x
    unfold insertField
    by_cases hk : name = k
    · subst hk
      rw [if_pos rfl, lookup_cons_ite, lookup_cons_ite]
      by_cases h : other = name <;> simp [h]
    · rw [if_neg hk]
      split
      · rw [lookup_cons_ite]
      · rw [lookup_cons_ite, lookup_cons_ite, ih]
        by_cases h : other = name
        · subst h
          simp [hk]
        · simp [h]

theorem field?_setField (j v : JsonValue) (name other : List UInt8) :
    (j.setField name v).field? other = if other = name then some v else j.field? other := by
  cases j with
  | obj fields => exact lookup_insertField name other v fields
  | _ => exact lookup_cons_ite other name v []

theorem isObject_eraseField {name : List UInt8} (h : j.isObject = true) :
    (j.eraseField name).isObject = true := by
  cases j with
  | obj fields => rfl
  | _ => cases h

theorem lookup_filter_ne (name other : List UInt8) (fields : List (List UInt8 × JsonValue)) :
    (fields.filter (·.1 ≠ name)).lookup other = if other = name then none else fields.lookup other := by
  induction fields with
  | nil => simp
  | cons x fields ih =>
    obtain ⟨k, x⟩ := x
    rw [filter_cons, lookup_cons_ite]
    by_cases hk : k = name
    · subst hk
      rw [if_neg (by simp), ih]
      by_cases h : other = k <;> simp [h]
    · rw [if_pos (by simpa using hk), lookup_cons_ite, ih]
      by_cases h : other = name
      · subst h
        simp [Ne.symm hk]
      · simp [h]

theorem field?_eraseField (j : JsonValue) (name other : List UInt8) :
    (j.eraseField name).field? other = if other = name then none else j.field? other := by
  cases j with
  | obj fields => exact lookup_filter_ne name other fields
  | _ => simp [eraseField, field?]

/-! ### Typed access

`get<T>()` and `value(key, default)` throw if the type of the value does not fit; the text of the exception is the error. -/

def typeName : JsonValue → String
  | null => "null"
  | bool _ => "boolean"
  | num _ => "number"
  | nonFinite _ => "number"
  | str _ => "string"
  | bin _ => "binary"
  | arr _ => "array"
  | obj _ => "object"

def typeError (id : Nat) (text : String) : List UInt8 :=
  ("[json.exception.type_error." ++ toString id ++ "] " ++ text).toByteArray.data.toList

def getString : JsonValue → Except (List UInt8) (List UInt8)
  | str s => .ok s
  | v => .error (typeError 302 ("type must be string, but is " ++ v.typeName))

def getBool : JsonValue → Except (List UInt8) Bool
  | bool b => .ok b
  | v => .error (typeError 302 ("type must be boolean, but is " ++ v.typeName))

def getInt : JsonValue → Except (List UInt8) Int
  | num q => .ok ((q.num.tdiv q.den).bmod (2 ^ 32))
  | bool b => .ok b.toInt
  | v => .error (typeError 302 ("type must be number, but is " ++ v.typeName))

def valueOf {α : Type} (read : JsonValue → Except (List UInt8) α) (v : JsonValue) (name : List UInt8) (default : α) :
    Except (List UInt8) α :=
  if v.isObject then
    match v.field? name with
    | none => .ok default
    | some x => read x
  else .error (typeError 306 ("cannot use value() with " ++ v.typeName))

def atOf {α : Type} (read : JsonValue → Except (List UInt8) α) (v : JsonValue) (name : List UInt8) : Except (List UInt8) α :=
  if v.isObject then
    match v.field? name with
    | none => .error ("[json.exception.out_of_range.403] key '".toByteArray.data.toList ++ name ++
        "' not found".toByteArray.data.toList)
    | some x => read x
  else .error (typeError 304 ("cannot use at() with " ++ v.typeName))

/-! ### Objects with sorted names -/

section Sorted

variable {fields others : List (List UInt8 × JsonValue)} {name : List UInt8} {v : JsonValue}

def SortedFields (fields : List (List UInt8 × JsonValue)) : Prop := fields.Pairwise fun x y => x.1 < y.1

def IsSorted : JsonValue → Prop
  | obj fields => SortedFields fields
  | _ => False

theorem mem_insertField {x : List UInt8 × JsonValue} (h : x ∈ insertField name v fields) : x = (name, v) ∨ x ∈ fields := by
  induction fields with
  | nil => simpa [insertField] using h
  | cons y fields ih =>
    unfold insertField at h
    split at h
    · rcases mem_cons.1 h with h | h
      · exact .inl h
      · exact .inr (mem_cons_of_mem _ h)
    · split at h
      · exact mem_cons.1 h
      · rcases mem_cons.1 h with h | h
        · exact .inr (by simp [h])
        · rcases ih h with h | h
          · exact .inl h
          · exact .inr (mem_cons_of_mem _ h)

theorem sortedFields_insertField (h : SortedFields fields) : SortedFields (insertField name v fields) := by
  induction fields with
  | nil => exact pairwise_singleton _ _
  | cons x fields ih =>
    obtain ⟨k, x⟩ := x
    obtain ⟨hx, hfld⟩ := pairwise_cons.1 h
    unfold insertField
    split
    · next hk =>
      subst hk
      exact pairwise_cons.2 ⟨hx, hfld⟩
    · next hne =>
      split
      · next hlt =>
        refine pairwise_cons.2 ⟨?_, h⟩
        intro y hy
        rcases mem_cons.1 hy with rfl | hy
        · exact hlt
        · exact List.lt_trans hlt (hx y hy)
      · next hnlt =>
        refine pairwise_cons.2 ⟨?_, ih hfld⟩
        intro y hy
        rcases mem_insertField hy with rfl | hy
        · exact Std.lt_of_le_of_ne hnlt (Ne.symm hne)
        · exact hx y hy

theorem isSorted_setField (h : j.IsSorted) : (j.setField name v).IsSorted := by
  cases j with
  | obj fields => exact sortedFields_insertField h
  | _ => exact h.elim

theorem lookup_eq_none_of_lt (h : ∀ x ∈ fields, name < x.1) : fields.lookup name = none := by
  rw [lookup_eq_none_iff]
  intro x hx
  have hne : name ≠ x.1 := by
    intro heq
    have hlt := h x hx
    rw [← heq] at hlt
    exact List.lt_irrefl _ hlt
  simpa using hne

theorem eq_of_lookup_eq (hf : SortedFields fields) (hg : SortedFields others)
    (h : ∀ k, fields.lookup k = others.lookup k) : fields = others := by
  induction fields generalizing others with
  | nil =>
    cases others with
    | nil => rfl
    | cons y others =>
      have := h y.1
      rw [lookup_cons_ite, if_pos rfl] at this
      cases this
  | cons x fields ih =>
    obtain ⟨hx, hfld⟩ := pairwise_cons.1 hf
    cases others with
    | nil =>
      have := h x.1
      rw [lookup_cons_ite, if_pos rfl] at this
      cases this
    | cons y others =>
      obtain ⟨hy, hoth⟩ := pairwise_cons.1 hg
      have hkey : x.1 = y.1 := by
        rcases Std.lt_trichotomy x.1 y.1 with hlt | heq | hlt
        · have hnone : (y :: others).lookup x.1 = none := by
            refine lookup_eq_none_of_lt fun z hz => ?_
            rcases mem_cons.1 hz with rfl | hz
            · exact hlt
            · exact List.lt_trans hlt (hy z hz)
          have := h x.1
          rw [hnone, lookup_cons_ite, if_pos rfl] at this
          cases this
        · exact heq
        · have hnone : (x :: fields).lookup y.1 = none := by
            refine lookup_eq_none_of_lt fun z hz => ?_
            rcases mem_cons.1 hz with rfl | hz
            · exact hlt
            · exact List.lt_trans hlt (hx z hz)
          have := h y.1
          rw [hnone, lookup_cons_ite, if_pos rfl] at this
          cases this
      have hval : x.2 = y.2 := by
        have := h x.1
        rw [lookup_cons_ite, if_pos rfl, lookup_cons_ite, if_pos hkey] at this
        exact Option.some.inj this
      have hhead : x = y := Prod.ext hkey hval
      subst hhead
      refine congrArg (x :: ·) (ih hfld hoth fun k => ?_)
      by_cases hk : k = x.1
      · rw [hk, lookup_eq_none_of_lt hx, lookup_eq_none_of_lt hy]
      · have := h k
        rwa [lookup_cons_ite, lookup_cons_ite, if_neg hk, if_neg hk] at this

theorem IsSorted.ext {i : JsonValue} (hi : i.IsSorted) (hj : j.IsSorted) (h : ∀ k, i.field? k = j.field? k) : i = j := by
  cases i with
  | obj fields =>
    cases j with
    | obj others => exact congrArg obj (eq_of_lookup_eq hi hj h)
    | _ => exact hj.elim
  | _ => exact hi.elim

end Sorted

section Everywhere

variable {scalar : JsonValue → Bool} {name : List UInt8 → Bool}

theorem everywhereFields_insertField {v : JsonValue} (hk : name k = true)
    (hv : everywhere scalar name v = true) {fields : List (List UInt8 × JsonValue)}
    (h : everywhereFields scalar name fields = true) : everywhereFields scalar name (insertField k v fields) = true := by
  induction fields with
  | nil => simp [insertField, everywhereFields, hk, hv]
  | cons x fields ih =>
    obtain ⟨l, x⟩ := x
    simp only [everywhereFields, Bool.and_eq_true] at h
    obtain ⟨hl, hx, hrest⟩ := h
    unfold insertField
    split
    · simp [everywhereFields, hk, hv, hrest]
    · split
      · simp [everywhereFields, hk, hv, hl, hx, hrest]
      · simp [everywhereFields, hl, hx, ih hrest]

theorem everywhereFields_filter {p : List UInt8 × JsonValue → Bool} {fields : List (List UInt8 × JsonValue)}
    (h : everywhereFields scalar name fields = true) : everywhereFields scalar name (fields.filter p) = true := by
  induction fields with
  | nil => exact h
  | cons x fields ih =>
    obtain ⟨l, x⟩ := x
    simp only [everywhereFields, Bool.and_eq_true] at h
    obtain ⟨hl, hx, hrest⟩ := h
    rw [filter_cons]
    split
    · simp [everywhereFields, hl, hx, ih hrest]
    · exact ih hrest

theorem everywhere_of_field? {j v : JsonValue} {k : List UInt8} (h : everywhere scalar name j = true)
    (hv : j.field? k = some v) : name k = true ∧ everywhere scalar name v = true := by
  cases j with
  | obj fields =>
    rw [everywhere] at h
    simp only [field?] at hv
    induction fields with
    | nil => cases hv
    | cons x fields ih =>
      obtain ⟨l, x⟩ := x
      simp only [everywhereFields, Bool.and_eq_true] at h
      rw [lookup_cons_ite] at hv
      split at hv
      · next hl =>
        subst hl
        cases hv
        exact ⟨h.1, h.2.1⟩
      · exact ih h.2.2 hv
  | _ => cases hv

theorem everywhere_setField {v : JsonValue} (hk : name k = true) (hv : everywhere scalar name v = true)
    (h : j.isObject = true → everywhere scalar name j = true) : everywhere scalar name (j.setField k v) = true := by
  cases j with
  | obj fields =>
    exact everywhereFields_insertField hk hv (by simpa [everywhere] using h rfl)
  | _ => simp [setField, everywhere, everywhereFields, hk, hv]

theorem everywhere_eraseField (h : everywhere scalar name j = true) :
    everywhere scalar name (j.eraseField k) = true := by
  cases j with
  | obj fields =>
    exact everywhereFields_filter (by simpa [everywhere] using h)
  | _ => exact h

end Everywhere

end JsonValue
