import Mathlib.Data.List.Infix
import Mathlib.Data.List.TakeDrop
import Mathlib.Tactic.Common
import Mathlib.Tactic.Set

/-!
# Where a word stands in a list, and splicing

`first p l` is the first position where the word `p` stands in `l`, and `closing p c l` the position of the first `c` from
there on.  The word is assumed not to hold `c`, so that `c` comes behind it.
-/

namespace Occurrence

open List Option

variable {α : Type*} {p l t d : List α} {c : α} {i j k m n : Nat}

/-! ### The next place of an element -/

/-- The first `c` from position `i` on is at position `j`. -/
def NextAt (c : α) (l : List α) (i j : Nat) : Prop :=
  i ≤ j ∧ l[j]? = some c ∧ ∀ k, i ≤ k → k < j → l[k]? ≠ some c

theorem NextAt.of_prefix {l' : List α} (h : NextAt c l' i j) (hl : l' <+: l) : NextAt c l i j := by
  obtain ⟨hij, hc, hno⟩ := h
  have hj : j < l'.length := (List.getElem?_eq_some_iff.1 hc).1
  obtain ⟨s, rfl⟩ := hl
  refine ⟨hij, by rw [getElem?_append_left hj]; exact hc, fun k hik hk => ?_⟩
  rw [getElem?_append_left (by omega)]
  exact hno k hik hk

theorem NextAt.append_left (h : NextAt c l i j) (pre : List α) : NextAt c (pre ++ l) (pre.length + i) (pre.length + j) := by
  obtain ⟨hij, hc, hno⟩ := h
  refine ⟨by omega, by rw [getElem?_append_right (by omega)]; simpa using hc, fun k hik hk => ?_⟩
  rw [getElem?_append_right (by omega)]
  exact hno _ (by omega) (by omega)

theorem NextAt.length_add_le (hcp : c ∉ p) (hp : p <+: l.drop i) (h : NextAt c l i j) : i + p.length ≤ j := by
  obtain ⟨hij, hc, -⟩ := h
  by_contra hlt
  have hj : j - i < p.length := by omega
  obtain ⟨s, hs⟩ := hp
  have hget : (p ++ s)[j - i]? = some c := by rw [hs, getElem?_drop, show i + (j - i) = j by omega, hc]
  rw [getElem?_append_left hj] at hget
  exact hcp (mem_of_getElem? hget)

theorem prefix_drop_take_iff : p <+: (l.take n).drop i ↔ p <+: l.drop i ∧ p.length ≤ n - i := by
  rw [drop_take, prefix_take_iff]

/-! ### The first occurrence of a word -/

section First

variable [DecidableEq α]

def first (p : List α) : List α → Option Nat
  | [] => if p = [] then some 0 else none
  | x :: l => if p <+: x :: l then some 0 else (first p l).map (· + 1)

theorem first_eq_some (h : first p l = some i) : p <+: l.drop i ∧ ∀ k < i, ¬ p <+: l.drop k := by
  induction l generalizing i with
  | nil =>
    by_cases hp : p = []
    · obtain rfl : 0 = i := by simpa [first, hp] using h
      simp [hp]
    · simp [first, hp] at h
  | cons x l ih =>
    by_cases hp : p <+: x :: l
    · obtain rfl : 0 = i := by simpa [first, hp] using h
      exact ⟨hp, by simp⟩
    · obtain ⟨a, ha, rfl⟩ : ∃ a, first p l = some a ∧ a + 1 = i := by simpa [first, hp] using h
      obtain ⟨hat, hmin⟩ := ih ha
      refine ⟨hat, fun k hk => ?_⟩
      cases k with
      | zero => exact hp
      | succ k => exact hmin k (by omega)

theorem first_eq_none (h : first p l = none) (k : Nat) : ¬ p <+: l.drop k := by
  induction l generalizing k with
  | nil =>
    have hp : p ≠ [] := fun hp => by simp [first, hp] at h
    simpa using hp
  | cons x l ih =>
    by_cases hp : p <+: x :: l
    · simp [first, hp] at h
    · cases k with
      | zero => exact hp
      | succ k => exact ih (by simpa [first, hp] using h) k

theorem first_isSome_iff : (first p l).isSome = true ↔ p <:+: l := by
  cases h : first p l with
  | none =>
    refine iff_of_false (by simp) ?_
    rintro ⟨a, b, rfl⟩
    exact first_eq_none h a.length (by simp)
  | some i => exact iff_of_true rfl ((first_eq_some h).1.isInfix.trans (drop_suffix i l).isInfix)

theorem first_eq_zero_iff : first p l = some 0 ↔ p <+: l := by
  refine ⟨fun h => (first_eq_some h).1, fun h => ?_⟩
  cases l with
  | nil => simp [first, prefix_nil.1 h]
  | cons x l => simp [first, h]

theorem first_append (h : first p l = some i) : first p (l ++ t) = some i := by
  induction l generalizing i with
  | nil =>
    obtain ⟨rfl, rfl⟩ : p = [] ∧ 0 = i := by simpa [first] using h
    cases t <;> simp [first]
  | cons x l ih =>
    by_cases hp : p <+: x :: l
    · obtain rfl : 0 = i := by simpa [first, hp] using h
      exact if_pos (hp.trans (prefix_append _ t))
    · obtain ⟨a, ha, rfl⟩ : ∃ a, first p l = some a ∧ a + 1 = i := by simpa [first, hp] using h
      have hno : ¬ p <+: x :: (l ++ t) := by
        intro hlong
        have hle := (first_eq_some ha).1.length_le
        rw [length_drop] at hle
        exact hp (prefix_of_prefix_length_le hlong (prefix_append _ t) (by simp; omega))
      rw [cons_append, first, if_neg hno, ih ha]
      rfl

def closing (p : List α) (c : α) (l : List α) : Option Nat :=
  (first p l).bind fun i => ((l.drop i).findIdx? (· == c)).map (i + ·)

theorem nextAt_of_findIdx? (h : (l.drop i).findIdx? (· == c) = some m) : NextAt c l i (i + m) := by
  obtain ⟨hm, hc, hmin⟩ := findIdx?_eq_some_iff_getElem.1 h
  refine ⟨by omega, ?_, fun k hik hk hkc => ?_⟩
  · rw [length_drop] at hm
    rw [getElem?_eq_getElem (by omega)]
    simpa using hc
  · have := hmin (k - i) (by omega)
    rw [getElem?_eq_some_iff] at hkc
    obtain ⟨hlt, hkc⟩ := hkc
    simp [show i + (k - i) = k by omega, hkc] at this

theorem findIdx?_of_nextAt (h : NextAt c l i j) : (l.drop i).findIdx? (· == c) = some (j - i) := by
  obtain ⟨hij, hc, hmin⟩ := h
  obtain ⟨hlt, hc⟩ := List.getElem?_eq_some_iff.1 hc
  refine List.findIdx?_eq_some_iff_getElem.2 ⟨by simp; omega, by simp [show i + (j - i) = j by omega, hc], fun k hk => ?_⟩
  have hne := hmin (i + k) (by omega) (by omega)
  rw [getElem?_eq_getElem (by omega)] at hne
  simpa using hne

theorem closing_eq_some_iff : closing p c l = some j ↔ ∃ i, first p l = some i ∧ NextAt c l i j := by
  constructor
  · intro h
    obtain ⟨i, hi, h⟩ := bind_eq_some_iff.1 h
    obtain ⟨m, hm, rfl⟩ := map_eq_some_iff.1 h
    exact ⟨i, hi, nextAt_of_findIdx? hm⟩
  · rintro ⟨i, hi, hj⟩
    have := hj.1
    simp only [closing, hi, bind_some, findIdx?_of_nextAt hj, map_some, Option.some.injEq]
    omega

theorem exists_closing (hp : p <+: l.drop i) (hj : NextAt c l i j) :
    ∃ j₀, closing p c l = some j₀ ∧ (j₀ = j ∨ j₀ < i) := by
  cases hi₀ : first p l with
  | none => exact absurd hp (first_eq_none hi₀ i)
  | some i₀ =>
    obtain ⟨-, hmin⟩ := first_eq_some hi₀
    have hle : i₀ ≤ i := by
      by_contra hlt
      exact hmin i (by omega) hp
    obtain ⟨hij, hc, hno⟩ := hj
    cases hfind : (l.drop i₀).findIdx? (· == c) with
    | none =>
      rw [List.findIdx?_eq_none_iff] at hfind
      obtain ⟨hlt, hc⟩ := List.getElem?_eq_some_iff.1 hc
      have := hfind c (List.mem_iff_getElem.2 ⟨j - i₀, by simp; omega, by simp [show i₀ + (j - i₀) = j by omega, hc]⟩)
      simp at this
    | some m =>
      have hnext := nextAt_of_findIdx? hfind
      refine ⟨i₀ + m, by simp [closing, hi₀, hfind], ?_⟩
      obtain ⟨-, hc₀, hno₀⟩ := hnext
      by_cases hlt : i₀ + m < i
      · exact .inr hlt
      · left
        have h₁ : ¬ j < i₀ + m := fun h => hno₀ j (by omega) h hc
        have h₂ : ¬ i₀ + m < j := fun h => hno _ (by omega) h hc₀
        omega

theorem closing_take_eq_some_iff (hcp : c ∉ p) : closing p c (l.take n) = some j ↔ closing p c l = some j ∧ j < n := by
  simp only [closing_eq_some_iff]
  constructor
  · rintro ⟨i, hi, hj⟩
    obtain ⟨hat, hmin⟩ := first_eq_some hi
    have hlen := hj.length_add_le hcp hat
    have hjn : j < n := by
      have := (List.getElem?_eq_some_iff.1 hj.2.1).1
      rw [length_take] at this
      omega
    obtain ⟨j₀, hj₀, h⟩ := exists_closing (prefix_drop_take_iff.1 hat).1 (hj.of_prefix ( take_prefix n l))
    obtain ⟨i₀, hi₀, hnext⟩ := closing_eq_some_iff.1 hj₀
    have hi' : i₀ = i := by
      obtain ⟨hat₀, hmin₀⟩ := first_eq_some hi₀
      have h₁ : ¬ i < i₀ := fun hlt => hmin₀ i hlt (prefix_drop_take_iff.1 hat).1
      have h₂ : ¬ i₀ < i := fun hlt => hmin i₀ hlt (prefix_drop_take_iff.2 ⟨hat₀, by omega⟩)
      omega
    obtain rfl | hlt := h
    · exact ⟨⟨_, hi₀, hnext⟩, hjn⟩
    · exact absurd hnext.1 (by omega)
  · rintro ⟨⟨i, hi, hj⟩, hjn⟩
    obtain ⟨hat, hmin⟩ := first_eq_some hi
    have hlen := hj.length_add_le hcp hat
    have hnext : NextAt c (l.take n) i j := by
      refine ⟨hj.1, by rw [getElem?_take_of_lt hjn]; exact hj.2.1, fun k hik hk => ?_⟩
      rw [getElem?_take_of_lt (by omega)]
      exact hj.2.2 k hik hk
    refine ⟨i, ?_, hnext⟩
    cases hi₀ : first p (l.take n) with
    | none => exact absurd (prefix_drop_take_iff.2 ⟨hat, by omega⟩) (first_eq_none hi₀ i)
    | some i₀ =>
      obtain ⟨hat₀, hmin₀⟩ := first_eq_some hi₀
      have h₁ : ¬ i < i₀ := fun hlt => hmin₀ i hlt (prefix_drop_take_iff.2 ⟨hat, by omega⟩)
      have h₂ : ¬ i₀ < i := fun hlt => hmin i₀ hlt (prefix_drop_take_iff.1 hat₀).1
      rw [show i₀ = i by omega]

/-! ### Replacing all occurrences -/

def replaceAll (p t : List α) : Nat → List α → List α
  | _, [] => []
  | k + 1, _ :: l => replaceAll p t k l
  | 0, x :: l => if p <+: x :: l then t ++ replaceAll p t (p.length - 1) l else x :: replaceAll p t 0 l

theorem replaceAll_drop : replaceAll p t k l = replaceAll p t 0 (l.drop k) := by
  induction l generalizing k with
  | nil => simp [replaceAll]
  | cons x l ih =>
    cases k with
    | zero => rfl
    | succ k => exact ih

theorem replaceAll_of_forall (h : ∀ k, ¬ p <+: l.drop k) : replaceAll p t 0 l = l := by
  induction l with
  | nil => rfl
  | cons x l ih =>
    have hno : ¬ p <+: x :: l := h 0
    rw [replaceAll, if_neg hno, ih fun k => h (k + 1)]

theorem replaceAll_first {a b : List α} (hp : p ≠ []) (hmin : ∀ k < a.length, ¬ p <+: (a ++ (p ++ b)).drop k) :
    replaceAll p t 0 (a ++ (p ++ b)) = a ++ (t ++ replaceAll p t 0 b) := by
  induction a with
  | nil =>
    obtain ⟨x, q, rfl⟩ := exists_cons_of_ne_nil hp
    have hat : x :: q <+: x :: (q ++ b) := prefix_append (x :: q) b
    rw [nil_append, cons_append, replaceAll, if_pos hat, replaceAll_drop]
    simp
  | cons x a ih =>
    have hno : ¬ p <+: x :: (a ++ (p ++ b)) := hmin 0 (by simp)
    rw [cons_append, replaceAll, if_neg hno, cons_append, ih fun k hk => hmin (k + 1) (by simpa using hk)]

theorem exists_append_of_first (h : first p l = some i) :
    ∃ a b, l = a ++ (p ++ b) ∧ a.length = i ∧ ∀ k < i, ¬ p <+: l.drop k := by
  obtain ⟨⟨b, hb⟩, hmin⟩ := first_eq_some h
  have hlen : i ≤ l.length := by
    by_contra hlt
    have hp : p = [] := by
      rw [drop_eq_nil_of_le (by omega)] at hb
      exact (append_eq_nil_iff.1 hb).1
    exact hmin l.length (by omega) (by simp [hp])
  exact ⟨l.take i, b, by rw [hb, take_append_drop], length_take_of_le hlen, hmin⟩

theorem length_le_replaceAll (hp : p ≠ []) (hpt : p.length ≤ t.length) : l.length ≤ (replaceAll p t 0 l).length := by
  induction hn : l.length using Nat.strongRecOn generalizing l with
  | ind n ih =>
    cases hi : first p l with
    | none => rw [replaceAll_of_forall (first_eq_none hi), hn]
    | some i =>
      obtain ⟨a, b, rfl, rfl, hmin⟩ := exists_append_of_first hi
      have hpos := length_pos_iff.2 hp
      rw [replaceAll_first hp hmin]
      simp only [length_append] at hn ⊢
      have := ih b.length (by omega) rfl
      omega

theorem replaceAll_eq_self_iff (hp : p ≠ []) (hpt : p.length < t.length) :
    replaceAll p t 0 l = l ↔ ∀ k, ¬ p <+: l.drop k := by
  refine ⟨fun h => ?_, replaceAll_of_forall⟩
  cases hi : first p l with
  | none => exact first_eq_none hi
  | some i =>
    obtain ⟨a, b, rfl, rfl, hmin⟩ := exists_append_of_first hi
    have hlen := congrArg length h
    have hle : b.length ≤ (replaceAll p t 0 b).length := length_le_replaceAll hp (by omega)
    rw [replaceAll_first hp hmin] at hlen
    simp only [length_append] at hlen
    omega

end First

/-! ### Words that end in a separator -/

theorem infix_append_cases {w a b : List α} (h : w <:+: a ++ b) :
    w <:+: a ∨ w <:+: b ∨ ∃ x y, y ≠ [] ∧ w = x ++ y ∧ x <:+ a ∧ y <+: b := by
  obtain ⟨s, u, h⟩ := h
  rcases append_eq_append_iff.1 h with ⟨a', rfl, -⟩ | ⟨c', hleft, rfl⟩
  · exact .inl ⟨s, a', rfl⟩
  · rcases append_eq_append_iff.1 hleft with ⟨a'', rfl, rfl⟩ | ⟨c'', -, rfl⟩
    · by_cases hc : c' = []
      · exact .inl ⟨s, [], by simp [hc]⟩
      · exact .inr (.inr ⟨a'', c', hc, rfl, suffix_append s a'', prefix_append c' u⟩)
    · exact .inr (.inl ⟨c'', u, rfl⟩)

theorem infix_append_iff_of_ending {w a b : List α} (ha : c ∉ a) (hb : ∀ x ∈ b.head?, x ∉ w) :
    w ++ [c] <:+: a ++ b ↔ (w <:+ a ∧ b.head? = some c) ∨ w ++ [c] <:+: b := by
  constructor
  · intro h
    rcases infix_append_cases h with hin | hin | ⟨x, y, hy, hw, hx, hstr⟩
    · exact absurd (hin.subset (by simp)) ha
    · exact .inr hin
    · obtain ⟨y', d, rfl⟩ := eq_nil_or_concat y |>.resolve_left hy
      rw [concat_eq_append, ← append_assoc] at hw
      obtain ⟨rfl, hd⟩ := append_inj' hw rfl
      obtain rfl := singleton_inj.1 hd
      cases y' with
      | nil => exact .inl ⟨by simpa using hx, by obtain ⟨u, rfl⟩ := hstr; rfl⟩
      | cons z y' =>
        obtain ⟨u, rfl⟩ := hstr
        exact absurd (mem_append_right x mem_cons_self) (hb z rfl)
  · rintro (⟨⟨s, rfl⟩, hhead⟩ | hin)
    · obtain ⟨u, rfl⟩ := head?_eq_some_iff.1 hhead
      exact ⟨s, u, by simp⟩
    · exact hin.trans (suffix_append a b).isInfix

/-! ### Splicing -/

def splice (l : List α) (k : Nat) (t : List α) : List α := l.take k ++ t ++ l.drop k

theorem length_splice : (splice l k t).length = l.length + t.length := by
  simp only [splice, length_append, length_take, length_drop]
  omega

theorem splice_append_left (pre : List α) : splice (pre ++ l) (pre.length + k) t = pre ++ splice l k t := by
  simp [splice, take_append, drop_append, take_of_length_le]

theorem splice_append_right (hk : k ≤ l.length) (post : List α) : splice (l ++ post) k t = splice l k t ++ post := by
  simp [splice, take_append_of_le_length hk, drop_append_of_le_length hk]

theorem getElem?_of_commute (h : t ++ d = d ++ t) (ht : t ≠ []) (hm : m < d.length) : d[m]? = t[m % t.length]? := by
  have hpos : 0 < t.length := length_pos_iff.2 ht
  induction m using Nat.strongRecOn with
  | ind m ih =>
    have hget : d[m]? = (t ++ d)[m]? := by rw [h, getElem?_append_left hm]
    by_cases hlt : m < t.length
    · rw [hget, getElem?_append_left hlt, Nat.mod_eq_of_lt hlt]
    · rw [hget, getElem?_append_right (by omega), ih (m - t.length) (by omega) (by omega)]
      rw [Nat.mod_eq_sub_mod (a := m) (by omega)]

theorem commute_of_splice_eq (hk : k ≤ n) (h : splice l k t = splice l n t) :
    t ++ (l.drop k).take (n - k) = (l.drop k).take (n - k) ++ t := by
  have hl : l.drop k = (l.drop k).take (n - k) ++ l.drop n := by
    rw [show l.drop n = (l.drop k).drop (n - k) by rw [drop_drop, Nat.add_sub_cancel' hk], take_append_drop]
  have htake : l.take n = l.take k ++ (l.drop k).take (n - k) := by
    rw [← take_append_drop k (l.take n), take_take, min_eq_left hk, drop_take]
  have h' : l.take k ++ (t ++ (l.drop k).take (n - k)) ++ l.drop n
      = l.take k ++ ((l.drop k).take (n - k) ++ t) ++ l.drop n := by
    calc l.take k ++ (t ++ (l.drop k).take (n - k)) ++ l.drop n
        = l.take k ++ t ++ ((l.drop k).take (n - k) ++ l.drop n) := by simp only [append_assoc]
      _ = splice l k t := by rw [← hl]; rfl
      _ = splice l n t := h
      _ = _ := by rw [splice, htake]; simp only [append_assoc]
  exact append_cancel_left (append_cancel_right h')

/-- If in `t`, read round and round, `a` is never followed by `b`, then the place where `t` was put in can be read off the
result, as far as the stretches between the places hold `a` followed by `b`. -/
theorem splice_inj {a b : α} (ht : t ≠ []) (hab : ∀ m, m < t.length → t[m]? = some a → t[(m + 1) % t.length]? ≠ some b)
    (hk : k ≤ m) (hm : m + 1 < n) (hn : n ≤ l.length) (ha : l[m]? = some a) (hb : l[m + 1]? = some b) :
    splice l k t ≠ splice l n t := by
  intro h
  have hcomm := commute_of_splice_eq (by omega) h
  have hlen : ((l.drop k).take (n - k)).length = n - k := by simp; omega
  have hget : ∀ x, k ≤ x → x < n → l[x]? = t[(x - k) % t.length]? := by
    intro x hx hxn
    rw [← getElem?_of_commute hcomm ht (by omega), getElem?_take_of_lt (by omega), getElem?_drop]
    congr 1
    omega
  have hpos : 0 < t.length := length_pos_iff.2 ht
  refine hab ((m - k) % t.length) (Nat.mod_lt _ hpos) ((hget m hk (by omega)).symm.trans ha) ?_
  rw [Nat.mod_add_mod, show m - k + 1 = m + 1 - k by omega]
  exact (hget (m + 1) (by omega) (by omega)).symm.trans hb

end Occurrence
