import Mathlib

/-!
# Maps in insertion order

A finite map as the list of its entries in the order in which the keys were added.  No key occurs twice; the structure
carries the proof.
-/

/-- A map that keeps its keys in the order of insertion. -/
structure InsertionMap (α β : Type*) where
  entries : List (α × β)
  nodup : (entries.map Prod.fst).Nodup

namespace InsertionMap

open List Option

variable {α β : Type*} {m : InsertionMap α β} {k : α} {v : β}

@[ext] theorem ext {m' : InsertionMap α β} (h : m.entries = m'.entries) : m = m' := by
  cases m
  cases m'
  simpa using h

def keys (m : InsertionMap α β) : List α := m.entries.map Prod.fst

def empty : InsertionMap α β := ⟨[], nodup_nil⟩

theorem index_unique (m : InsertionMap α β) {i j : Nat} {w : β} (hi : m.entries[i]? = some (k, v))
    (hj : m.entries[j]? = some (k, w)) : i = j := by
  obtain ⟨hi', ei⟩ := List.getElem?_eq_some_iff.1 hi
  have hlen : i < (m.entries.map Prod.fst).length := by simpa using hi'
  refine (List.getElem?_inj hlen m.nodup).1 ?_
  rw [List.getElem?_map, List.getElem?_map, hi, hj]
  rfl

theorem value_unique (m : InsertionMap α β) {w : β} (hv : (k, v) ∈ m.entries) (hw : (k, w) ∈ m.entries) :
    v = w := by
  obtain ⟨i, hi⟩ := getElem?_of_mem hv
  obtain ⟨j, hj⟩ := getElem?_of_mem hw
  obtain rfl := m.index_unique hi hj
  rw [hi] at hj
  injection hj with e
  injection e

theorem exists_getElem? {m : InsertionMap α β} {k : α} (h : k ∈ m.keys) : ∃ (i : Nat) (v : β), m.entries[i]? = some (k, v) := by
  obtain ⟨⟨k', v⟩, he, rfl⟩ := mem_map.1 h
  obtain ⟨i, hi⟩ := getElem?_of_mem he
  exact ⟨i, v, hi⟩

variable [DecidableEq α]

def get (m : InsertionMap α β) (k : α) : Option β := (m.entries.find? fun e => e.1 = k).map Prod.snd

def addKey (m : InsertionMap α β) (k : α) (v : β) : InsertionMap α β where
  entries := if k ∈ m.keys then m.entries else m.entries ++ [(k, v)]
  nodup := by
    split
    · exact m.nodup
    · rename_i hk
      rw [map_append]
      exact nodup_append'.2 ⟨m.nodup, nodup_singleton _, disjoint_singleton.2 hk⟩

def erase (m : InsertionMap α β) (k : α) : InsertionMap α β where
  entries := m.entries.filter fun e => e.1 ≠ k
  nodup := (filter_sublist.map Prod.fst).nodup m.nodup

theorem map_fst_modify (l : List (α × β)) (k : α) (f : β → β) :
    (l.map fun e => if e.1 = k then (e.1, f e.2) else e).map Prod.fst = l.map Prod.fst := by
  rw [List.map_map]
  refine List.map_congr_left fun e _ => ?_
  simp only [Function.comp]
  split <;> rfl

def modify (m : InsertionMap α β) (k : α) (f : β → β) : InsertionMap α β where
  entries := m.entries.map fun e => if e.1 = k then (e.1, f e.2) else e
  nodup := by
    rw [map_fst_modify]
    exact m.nodup

/-! ### By position -/

theorem get_of_getElem? {m : InsertionMap α β} {i : Nat} {k : α} {v : β} (h : m.entries[i]? = some (k, v)) :
    m.get k = some v := by
  unfold get
  have hmem := mem_of_getElem? h
  cases hfind : m.entries.find? fun e => e.1 = k with
  | none => simpa using find?_eq_none.1 hfind (k, v) hmem
  | some e =>
    have hk : e.1 = k := by simpa using find?_some hfind
    have he := mem_of_find?_eq_some hfind
    rw [← hk] at hmem
    simp only [map_some, m.value_unique he hmem]

theorem get_of_notMem (h : k ∉ m.keys) : m.get k = none := by
  unfold get
  rw [map_eq_none_iff, find?_eq_none]
  intro e he hk
  have hk : e.1 = k := by simpa using hk
  exact h (hk ▸ mem_map_of_mem he)

theorem eq_empty (h : ∀ k, m.get k = none) : m = empty := by
  ext1
  refine eq_nil_iff_forall_not_mem.2 fun e he => ?_
  obtain ⟨i, hi⟩ := getElem?_of_mem he
  have hsome := get_of_getElem? hi
  rw [h] at hsome
  simp at hsome

theorem addKey_of_mem (h : k ∈ m.keys) : m.addKey k v = m := by
  ext1
  exact if_pos h

theorem addKey_entries (h : k ∉ m.keys) :
    (m.addKey k v).entries = m.entries ++ [(k, v)] := if_neg h

theorem erase_of_notMem (h : k ∉ m.keys) : m.erase k = m := by
  ext1
  refine filter_eq_self.2 fun e he => ?_
  simp only [ne_eq, decide_not, Bool.not_eq_eq_eq_not, Bool.not_true, decide_eq_false_iff_not]
  rintro rfl
  exact h (mem_map_of_mem he)

theorem erase_entries {i : Nat} (h : m.entries[i]? = some (k, v)) :
    (m.erase k).entries = m.entries.eraseIdx i := by
  obtain ⟨hi, ei⟩ := List.getElem?_eq_some_iff.1 h
  have hoth : ∀ j, j ≠ i → ∀ e, m.entries[j]? = some e → decide (e.1 ≠ k) = true := by
    intro j hj e he
    refine decide_eq_true ?_
    rintro rfl
    exact hj (m.index_unique he h)
  have hspl : m.entries = m.entries.take i ++ (k, v) :: m.entries.drop (i + 1) := by
    rw [← ei, List.getElem_cons_drop, List.take_append_drop]
  have htake : (m.entries.take i).filter (fun e => e.1 ≠ k) = m.entries.take i := by
    refine List.filter_eq_self.2 fun e he => ?_
    obtain ⟨j, hj⟩ := List.getElem?_of_mem he
    rw [List.getElem?_take] at hj
    split at hj
    · exact hoth j (by omega) e hj
    · simp at hj
  have hdrop : (m.entries.drop (i + 1)).filter (fun e => e.1 ≠ k) = m.entries.drop (i + 1) := by
    refine List.filter_eq_self.2 fun e he => ?_
    obtain ⟨j, hj⟩ := List.getElem?_of_mem he
    rw [List.getElem?_drop] at hj
    exact hoth _ (by omega) e hj
  rw [List.eraseIdx_eq_take_drop_succ]
  show m.entries.filter _ = _
  conv_lhs => rw [hspl]
  rw [List.filter_append, htake, List.filter_cons_of_neg (by simp), hdrop]

theorem modify_entries {i : Nat} (h : m.entries[i]? = some (k, v)) (f : β → β) :
    (m.modify k f).entries = m.entries.set i (k, f v) := by
  refine List.ext_getElem? fun j => ?_
  simp only [modify, List.getElem?_map, List.getElem?_set]
  by_cases hij : i = j
  · subst hij
    obtain ⟨hi, -⟩ := List.getElem?_eq_some_iff.1 h
    rw [h, if_pos hi]
    simp
  · rw [if_neg hij]
    cases hj : m.entries[j]? with
    | none => rfl
    | some e =>
      have hne : e.1 ≠ k := by
        rintro rfl
        exact hij (m.index_unique h hj)
      simp [hne]

/-! ### By key -/

theorem keys_modify (m : InsertionMap α β) (k : α) (f : β → β) : (m.modify k f).keys = m.keys :=
  map_fst_modify m.entries k f

theorem get_addKey_ne {k' : α} (hne : k' ≠ k) : (m.addKey k v).get k' = m.get k' := by
  by_cases hk : k ∈ m.keys
  · rw [addKey_of_mem hk]
  · unfold get
    rw [addKey_entries hk]
    simp [Ne.symm hne]

theorem get_addKey_self : (m.addKey k v).get k = some ((m.get k).getD v) := by
  by_cases hk : k ∈ m.keys
  · obtain ⟨i, w, hi⟩ := exists_getElem? hk
    rw [addKey_of_mem hk, get_of_getElem? hi]
    rfl
  · have hlast : (m.addKey k v).entries[m.entries.length]? = some (k, v) := by
      rw [addKey_entries hk]
      simp
    rw [get_of_getElem? hlast, get_of_notMem hk]
    rfl

theorem get_modify_self (m : InsertionMap α β) (k : α) (f : β → β) : (m.modify k f).get k = (m.get k).map f := by
  by_cases hk : k ∈ m.keys
  · obtain ⟨i, v, hi⟩ := exists_getElem? hk
    have hi' : (m.modify k f).entries[i]? = some (k, f v) := by
      rw [modify_entries hi, List.getElem?_set_self (List.getElem?_eq_some_iff.1 hi).1]
    rw [get_of_getElem? hi, get_of_getElem? hi']
    rfl
  · rw [get_of_notMem hk, get_of_notMem (by rw [keys_modify]; exact hk)]
    rfl

theorem get_modify_ne {k' : α} {f : β → β} (hne : k' ≠ k) :
    (m.modify k f).get k' = m.get k' := by
  by_cases hk : k' ∈ m.keys
  · obtain ⟨i, v, hi⟩ := exists_getElem? hk
    have hi' : (m.modify k f).entries[i]? = some (k', v) := by
      simp only [modify, getElem?_map, hi, map_some, if_neg hne]
    rw [get_of_getElem? hi, get_of_getElem? hi']
  · rw [get_of_notMem hk, get_of_notMem (by rw [keys_modify]; exact hk)]

theorem get_erase_self (m : InsertionMap α β) (k : α) : (m.erase k).get k = none := by
  refine get_of_notMem ?_
  simp [keys, erase]

theorem get_erase_ne {k' : α} (hne : k' ≠ k) : (m.erase k).get k' = m.get k' := by
  unfold get
  simp only [erase, find?_filter]
  refine congrArg _ (find?_congr fun e _ => ?_)
  by_cases hk : e.1 = k'
  · simp [hk, hne]
  · simp [hk]

end InsertionMap
