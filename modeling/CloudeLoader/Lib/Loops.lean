import Mathlib

/-!
# Loops with an early exit

Rules for loops over a list that may be left early, written as `List.foldlM` and `List.mapM`.  If such a loop collects
something from every element, an invariant that relates the state to what has been collected so far holds at the end for all
that is to be collected (`foldlM_collect`).
-/

namespace Loops

open List Option

variable {α β γ σ : Type*}

theorem foldlM_collect {P : σ → List γ → Prop} {f : σ → α → Option σ} {g : α → List γ} {xs : List α}
    (step : ∀ s s' cs, ∀ x ∈ xs, P s cs → f s x = some s' → P s' (cs ++ g x)) {s s' : σ} {cs : List γ} (h : P s cs)
    (e : xs.foldlM f s = some s') : P s' (cs ++ xs.flatMap g) := by
  induction xs generalizing s cs with
  | nil =>
    obtain rfl : s = s' := by simpa using e
    simpa using h
  | cons x xs ih =>
    obtain ⟨t, ht, e⟩ : ∃ t, f s x = some t ∧ xs.foldlM f t = some s' := by
      simpa [foldlM_cons, bind_eq_some_iff] using e
    have hstep := step s t cs x (mem_cons_self) h ht
    rw [flatMap_cons, ← append_assoc]
    exact ih (fun s s' cs y hy => step s s' cs y (mem_cons_of_mem _ hy)) hstep e

theorem foldlM_each {f : σ → α → Option σ} {xs : List α} {s s' : σ} (e : xs.foldlM f s = some s') {x : α} (hx : x ∈ xs) :
    ∃ t t', f t x = some t' := by
  induction xs generalizing s with
  | nil => simp at hx
  | cons y xs ih =>
    obtain ⟨t, ht, e⟩ : ∃ t, f s y = some t ∧ xs.foldlM f t = some s' := by
      simpa [foldlM_cons, bind_eq_some_iff] using e
    rcases mem_cons.1 hx with rfl | hx
    · exact ⟨s, t, ht⟩
    · exact ih e hx

theorem mapM_isSome {f : α → Option β} {xs : List α} (h : ∀ x ∈ xs, (f x).isSome) : (xs.mapM f).isSome := by
  induction xs with
  | nil => rfl
  | cons x xs ih =>
    obtain ⟨y, hy⟩ := isSome_iff_exists.1 (h x (mem_cons_self))
    obtain ⟨ys, hys⟩ := isSome_iff_exists.1 (ih fun z hz => h z (mem_cons_of_mem _ hz))
    simp [mapM_cons, hy, hys]

/-- The outcome of a search for number `n` among items that are numbered from `i` on: the item, or the next number. -/
def search (items : List γ) (n i : Nat) : Except γ Nat :=
  match items[n - i]? with
  | some y => .error y
  | none => .ok (i + items.length)

theorem search_append (items items' : List γ) (n i : Nat) :
    search (items ++ items') n i = (search items n i >>= fun i' => search items' n i') := by
  unfold search
  by_cases hlt : n - i < items.length
  · rw [getElem?_append_left hlt, getElem?_eq_getElem hlt]
    rfl
  · have hle : items.length ≤ n - i := Nat.le_of_not_lt hlt
    rw [getElem?_append_right hle, getElem?_eq_none hle]
    show _ = search items' n (i + items.length)
    rw [search, show n - i - items.length = n - (i + items.length) by omega, length_append, Nat.add_assoc]

theorem search_ok {items : List γ} {n i i' : Nat} (hi : i ≤ n) (e : search items n i = .ok i') :
    i' = i + items.length ∧ i' ≤ n := by
  unfold search at e
  split at e
  · simp at e
  · rename_i hnone
    have hle := getElem?_eq_none_iff.1 hnone
    injection e with e
    omega

/-- If the body of a loop searches the items of its element, and the numbers stay below `bound`, then the loop searches
the items of all elements. -/
theorem foldlM_search {f : Nat → α → Except γ Nat} {g : α → List γ} {xs : List α} {n : Nat} (bound : Nat)
    (step : ∀ i, ∀ x ∈ xs, i ≤ n → i + (g x).length ≤ bound → f i x = search (g x) n i) {i : Nat} (hi : i ≤ n)
    (hbnd : i + (xs.flatMap g).length ≤ bound) : xs.foldlM f i = search (xs.flatMap g) n i := by
  induction xs generalizing i with
  | nil => rfl
  | cons x xs ih =>
    rw [flatMap_cons, length_append] at hbnd
    rw [foldlM_cons, flatMap_cons, search_append,
      step i x (mem_cons_self) hi (by omega)]
    cases e : search (g x) n i with
    | error y => rfl
    | ok i' =>
      obtain ⟨rfl, hle⟩ := search_ok hi e
      exact ih (fun i y hy => step i y (mem_cons_of_mem _ hy)) hle (by omega)

theorem mapM_getElem? {f : α → Option β} {xs : List α} {ys : List β} (e : xs.mapM f = some ys) {n : Nat} {x : α}
    (hx : xs[n]? = some x) : ∃ y, f x = some y ∧ ys[n]? = some y := by
  induction xs generalizing ys n with
  | nil => simp at hx
  | cons x' xs ih =>
    obtain ⟨y, hy, ys', hys, rfl⟩ : ∃ y, f x' = some y ∧ ∃ ys', xs.mapM f = some ys' ∧ y :: ys' = ys := by
      simpa [mapM_cons, bind_eq_some_iff] using e
    cases n with
    | zero =>
      obtain rfl : x' = x := by simpa using hx
      exact ⟨y, hy, rfl⟩
    | succ n => exact ih hys hx

theorem length_of_mapM {f : α → Option β} {xs : List α} {ys : List β} (e : xs.mapM f = some ys) : ys.length = xs.length := by
  induction xs generalizing ys with
  | nil =>
    obtain rfl : [] = ys := by simpa using e
    rfl
  | cons x xs ih =>
    obtain ⟨y, -, ys', hys, rfl⟩ : ∃ y, f x = some y ∧ ∃ ys', xs.mapM f = some ys' ∧ y :: ys' = ys := by
      simpa [mapM_cons, bind_eq_some_iff] using e
    rw [length_cons, length_cons, ih hys]

/-- A loop that may throw comes to its end if and only if no round throws in the state it is reached in. -/
theorem foldlM_ok_iff {ε : Type*} {f : σ → α → Except ε σ} {xs : List α} {s : σ} :
    (∃ s', xs.foldlM f s = .ok s') ↔
      ∀ k t x, (xs.take k).foldlM f s = .ok t → xs[k]? = some x → ∃ t', f t x = .ok t' := by
  induction xs generalizing s with
  | nil => exact ⟨fun _ k t x _ hx => by simp at hx, fun _ => ⟨s, rfl⟩⟩
  | cons y xs ih =>
    cases hy : f s y with
    | error e =>
      constructor
      · rintro ⟨s', h⟩
        rw [foldlM_cons, hy] at h
        cases h
      · intro h
        obtain ⟨t', ht'⟩ := h 0 s y rfl rfl
        cases hy.symm.trans ht'
    | ok t =>
      have hcons : ∀ ys : List α, (y :: ys).foldlM f s = ys.foldlM f t := fun ys => by
        rw [foldlM_cons, hy]
        rfl
      rw [hcons, ih]
      constructor
      · intro h k u x hu hx
        cases k with
        | zero =>
          obtain rfl : s = u := by
            cases hu
            rfl
          obtain rfl : y = x := by simpa using hx
          exact ⟨t, hy⟩
        | succ k =>
          rw [take_succ_cons, hcons] at hu
          exact h k u x hu hx
      · intro h k u x hu hx
        refine h (k + 1) u x ?_ hx
        rw [take_succ_cons, hcons]
        exact hu

/-! ### Lists by their indices -/

theorem filterMap_getElem?_range (l : List α) : (List.range l.length).filterMap (l[·]?) = l := by
  induction l with
  | nil => rfl
  | cons a l ih =>
    rw [length_cons, range_succ_eq_map, filterMap_cons]
    simpa [Function.comp_def] using ih

theorem filterMap_getElem?_filter (l : List α) (q : α → Bool) :
    ((List.range l.length).filter fun i => (l[i]?).any q).filterMap (l[·]?) = l.filter q := by
  have h := congrArg (List.filter q) (filterMap_getElem?_range l)
  rw [filter_filterMap] at h
  rw [filterMap_filter, ← h]
  refine filterMap_congr fun i _ => ?_
  cases l[i]? with
  | none => simp
  | some a => simp [filter_some]

end Loops
