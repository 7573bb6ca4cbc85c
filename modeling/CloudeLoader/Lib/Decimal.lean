import Mathlib.Data.Nat.Digits.Lemmas
import Mathlib.Tactic.Ring

/-!
# Decimal texts of integers

`numeral` is the decimal text of a number, and `general p` is what `printf` writes for an integer with the format `%.pg`:
if the number has more than `p` digits, it is rounded to `p` significant digits and written with an exponent, without
zeros at the end.
-/

namespace Decimal

open List Nat

/-! ### Numerals -/

def numeral (n : Nat) : List UInt8 := if n = 0 then [48] else (digits 10 n).reverse.map fun d => UInt8.ofNat (48 + d)

def digit (c : UInt8) : Nat := c.toNat - 48

def read (a : Nat) (ds : List UInt8) : Nat := ds.foldl (fun a c => 10 * a + digit c) a

theorem digit_ofNat {d : Nat} (h : d < 10) : digit (UInt8.ofNat (48 + d)) = d := by
  rw [digit, UInt8.toNat_ofNat']
  omega

theorem read_eq_ofDigits (s : List UInt8) : read 0 s = ofDigits 10 (s.map digit).reverse := by
  induction s using List.reverseRecOn with
  | nil => rfl
  | append_singleton s c ih =>
    rw [read] at ih ⊢
    rw [foldl_append, ih, map_append, reverse_append]
    exact add_comm _ _

theorem read_numeral (n : Nat) : read 0 (numeral n) = n := by
  rw [numeral]
  split
  · next h => rw [h]; rfl
  · have hdig : ((digits 10 n).reverse.map fun d => UInt8.ofNat (48 + d)).map digit = (digits 10 n).reverse := by
      rw [map_map]
      refine (map_congr_left fun d hd => ?_).trans (map_id _)
      exact digit_ofNat (digits_lt_base (by decide) (mem_reverse.1 hd))
    rw [read_eq_ofDigits, hdig, reverse_reverse, ofDigits_digits]

theorem mem_numeral {n : Nat} {c : UInt8} (h : c ∈ numeral n) : 48 ≤ c.toNat ∧ c.toNat ≤ 57 := by
  rw [numeral] at h
  split at h
  · obtain rfl := mem_singleton.1 h
    decide
  · obtain ⟨d, hd, rfl⟩ := mem_map.1 h
    have hlt : d < 10 := digits_lt_base (by decide) (mem_reverse.1 hd)
    rw [UInt8.toNat_ofNat']
    omega

theorem length_numeral {n : Nat} (h : n ≠ 0) : (numeral n).length = log 10 n + 1 := by
  rw [numeral, if_neg h, length_map, length_reverse, length_digits 10 n (by decide) h]

theorem length_numeral_le {n k : Nat} (hk : 0 < k) (h : n < 10 ^ k) : (numeral n).length ≤ k := by
  by_cases hzero : n = 0
  · rw [hzero]
    exact hk
  · rw [length_numeral hzero]
    exact log_lt_of_lt_pow hzero h

theorem numeral_eq_cons {n : Nat} (h : n ≠ 0) : ∃ c rest, numeral n = c :: rest ∧ c ≠ 48 := by
  have hlast := getLast_digit_ne_zero 10 h
  have hne : digits 10 n ≠ [] := digits_ne_nil_iff_ne_zero.2 h
  have hlt := digits_lt_base (by decide : 1 < 10) (getLast_mem hne)
  refine ⟨UInt8.ofNat (48 + (digits 10 n).getLast hne),
    (digits 10 n).dropLast.reverse.map fun d => UInt8.ofNat (48 + d), ?_, ?_⟩
  · have hrev := congrArg List.reverse (dropLast_append_getLast hne)
    rw [reverse_append, reverse_singleton, singleton_append] at hrev
    rw [numeral, if_neg h, ← hrev, map_cons]
  · intro heq
    have := digit_ofNat hlt
    rw [heq] at this
    exact hlast this.symm

/-! ### Rounding -/

/-- `a` in multiples of `unit`, rounded to nearest and ties to even. -/
def roundUnits (unit a : Nat) : Nat :=
  a / unit + if unit < 2 * (a % unit) ∨ unit = 2 * (a % unit) ∧ a / unit % 2 = 1 then 1 else 0

def unit (p a : Nat) : Nat := 10 ^ (log 10 a + 1 - p)

def rounded (p a : Nat) : Nat := if a < 10 ^ p then a else roundUnits (unit p a) a * unit p a

theorem roundUnits_mul_eq_iff {unit a : Nat} (h : 0 < unit) : roundUnits unit a * unit = a ↔ unit ∣ a := by
  constructor
  · intro heq
    exact ⟨roundUnits unit a, by rw [mul_comm]; exact heq.symm⟩
  · intro hdvd
    have hmod := Nat.mod_eq_zero_of_dvd hdvd
    rw [roundUnits, if_neg (by omega), Nat.add_zero, Nat.div_mul_cancel hdvd]

theorem unit_pos (p a : Nat) : 0 < unit p a := Nat.pow_pos (by decide)

theorem rounded_eq_self_iff {p a : Nat} : rounded p a = a ↔ a < 10 ^ p ∨ unit p a ∣ a := by
  rw [rounded]
  split
  · next h => exact iff_of_true rfl (.inl h)
  · next h =>
    rw [roundUnits_mul_eq_iff (unit_pos p a)]
    exact ⟨.inr, fun hor => hor.resolve_left h⟩

def roundedInt (p : Nat) (z : Int) : Int := (if z < 0 then -1 else 1) * rounded p z.natAbs

theorem roundedInt_eq_self_iff {p : Nat} {z : Int} : roundedInt p z = z ↔ rounded p z.natAbs = z.natAbs := by
  rw [roundedInt]
  split <;> omega

theorem dvd_rounded {p a : Nat} (ha : 10 ^ p ≤ a) : 10 ∣ rounded p a := by
  have hlog : p ≤ log 10 a := le_log_of_pow_le (by decide) ha
  rw [rounded, if_neg (by omega)]
  exact Nat.dvd_mul_left_of_dvd (dvd_pow_self 10 (by omega)) _

theorem rounded_le {p a : Nat} (hp : 0 < p) (ha : 10 ^ p ≤ a) : rounded p a ≤ 2 * a := by
  have hpos : 0 < 10 ^ p := Nat.pow_pos (by decide)
  have hunit : unit p a ≤ a := by
    refine Nat.le_trans (Nat.pow_le_pow_right (by decide) ?_) (Nat.pow_log_le_self 10 (by omega))
    omega
  have hrnd : roundUnits (unit p a) a ≤ a / unit p a + 1 := by
    rw [roundUnits]
    split <;> omega
  rw [rounded, if_neg (by omega)]
  calc roundUnits (unit p a) a * unit p a ≤ (a / unit p a + 1) * unit p a := Nat.mul_le_mul_right _ hrnd
    _ = a / unit p a * unit p a + unit p a := Nat.succ_mul _ _
    _ ≤ 2 * a := by have := Nat.div_mul_le_self a (unit p a); omega

/-! ### Significant digits -/

def significand (p a : Nat) : Nat × Nat :=
  let m := roundUnits (unit p a) a
  if m = 10 ^ p then (10 ^ (p - 1), log 10 a + 1) else (m, log 10 a)

def trim : Nat → Nat → Nat
  | 0, m => m
  | fuel + 1, m => if m % 10 = 0 then trim fuel (m / 10) else m

def exponentText (e : Nat) : List UInt8 := [101, 43] ++ ((if e < 10 then [48] else []) ++ numeral e)

def pointed : List UInt8 → List UInt8
  | c :: d :: rest => c :: 46 :: d :: rest
  | cs => cs

def scientific (p a : Nat) : List UInt8 :=
  pointed (numeral (trim (p - 1) (significand p a).1)) ++ exponentText (significand p a).2

/-- The format `%.pg` of an integer. -/
def general (p : Nat) (n : Int) : List UInt8 :=
  (if n < 0 then [45] else []) ++ if n.natAbs < 10 ^ p then numeral n.natAbs else scientific p n.natAbs

section Significand

variable {p a : Nat}

theorem le_log (ha : 10 ^ p ≤ a) : p ≤ log 10 a := le_log_of_pow_le (by decide) ha

theorem roundUnits_bounds (hp : 0 < p) (ha : 10 ^ p ≤ a) :
    10 ^ (p - 1) ≤ roundUnits (unit p a) a ∧ roundUnits (unit p a) a ≤ 10 ^ p := by
  have hle := le_log ha
  have hne : a ≠ 0 := by
    have : 0 < 10 ^ p := Nat.pow_pos (by decide)
    omega
  have hlow : 10 ^ (p - 1) * unit p a ≤ a := by
    rw [unit, ← Nat.pow_add, show p - 1 + (Nat.log 10 a + 1 - p) = Nat.log 10 a by omega]
    exact Nat.pow_log_le_self 10 hne
  have hhigh : a < 10 ^ p * unit p a := by
    rw [unit, ← Nat.pow_add, show p + (Nat.log 10 a + 1 - p) = Nat.log 10 a + 1 by omega]
    exact Nat.lt_pow_succ_log_self (by decide) a
  have hdiv : a / unit p a < 10 ^ p := Nat.div_lt_of_lt_mul (by rw [Nat.mul_comm]; exact hhigh)
  have hdiv' : 10 ^ (p - 1) ≤ a / unit p a := (Nat.le_div_iff_mul_le (unit_pos p a)).2 hlow
  rw [roundUnits]
  split <;> omega

theorem significand_spec (hp : 0 < p) (ha : 10 ^ p ≤ a) :
    10 ^ (p - 1) ≤ (significand p a).1 ∧ (significand p a).1 < 10 ^ p ∧ p ≤ (significand p a).2 ∧
      (significand p a).1 * 10 ^ ((significand p a).2 + 1 - p) = rounded p a := by
  have hle := le_log ha
  obtain ⟨hlow, hhigh⟩ := roundUnits_bounds hp ha
  rw [rounded, if_neg (by omega), significand]
  by_cases hcar : roundUnits (unit p a) a = 10 ^ p
  · simp only [hcar, if_true]
    refine ⟨le_rfl, Nat.pow_lt_pow_right (by decide) (by omega), by omega, ?_⟩
    rw [unit, ← pow_add, ← pow_add]
    congr 1
    omega
  · simp only [hcar, if_false]
    exact ⟨hlow, by omega, hle, rfl⟩

theorem trim_spec (fuel m : Nat) (hm : m ≠ 0) : ∃ z, trim fuel m ≠ 0 ∧ m = trim fuel m * 10 ^ z := by
  induction fuel generalizing m with
  | zero => exact ⟨0, hm, by simp [trim]⟩
  | succ fuel ih =>
    rw [trim]
    split
    · next h =>
      obtain ⟨z, hne, heq⟩ := ih (m / 10) (by omega)
      refine ⟨z + 1, hne, ?_⟩
      rw [pow_succ, ← mul_assoc]
      omega
    · exact ⟨0, hm, by simp⟩

theorem length_pointed_le (ds : List UInt8) : (pointed ds).length ≤ ds.length + 1 := by
  unfold pointed
  split <;> simp

theorem length_exponentText {e : Nat} (h : e < 100) : (exponentText e).length = 4 := by
  rw [exponentText, length_append, length_append]
  split
  · next hlt =>
    have hpos : numeral e ≠ [] := by
      by_cases hzero : e = 0
      · subst hzero
        simp [numeral]
      · obtain ⟨c, rest, hcons, -⟩ := numeral_eq_cons hzero
        simp [hcons]
    have := length_numeral_le (by decide : 0 < 1) (by omega : e < 10 ^ 1)
    have := length_pos_iff.2 hpos
    simp only [length_cons, length_nil]
    omega
  · next hge =>
    rw [length_numeral (by omega), log_eq_of_pow_le_of_lt_pow (m := 1) (by omega) (by omega)]
    rfl

end Significand

theorem ne_zero_of_mem_general {p : Nat} {z : Int} {c : UInt8} (h : c ∈ general p z) : c ≠ 0 := by
  have hnum : ∀ n, c ∈ numeral n → c ≠ 0 := by
    rintro n hn rfl
    have := mem_numeral hn
    simp at this
  have hpnt : ∀ n, c ∈ pointed (numeral n) → c ≠ 0 := by
    intro n hn
    unfold pointed at hn
    split at hn
    · next x y rest heq =>
      rcases mem_cons.1 hn with rfl | hn
      · exact hnum n (by simp [heq])
      · rcases mem_cons.1 hn with rfl | hn
        · decide
        · exact hnum n (by rw [heq]; exact mem_cons_of_mem _ hn)
    · exact hnum n hn
  rcases mem_append.1 h with h | h
  · split at h
    · rw [mem_singleton.1 h]
      decide
    · cases h
  · split at h
    · exact hnum _ h
    · rcases mem_append.1 h with h | h
      · exact hpnt _ h
      · simp only [exponentText, mem_append, mem_cons, not_mem_nil, or_false] at h
        rcases h with (rfl | rfl) | h | h
        · decide
        · decide
        · split at h
          · rw [mem_singleton.1 h]
            decide
          · cases h
        · exact hnum _ h

theorem length_general_le {p : Nat} {z : Int} (hp : 0 < p) (hz : z.natAbs < 10 ^ 98) : (general p z).length ≤ p + 6 := by
  have hsign : (if z < 0 then [45] else [] : List UInt8).length ≤ 1 := by split <;> simp
  rw [general, length_append]
  by_cases h : z.natAbs < 10 ^ p
  · have := length_numeral_le hp h
    rw [if_pos h]
    omega
  · obtain ⟨hlow, hhigh, -, -⟩ := significand_spec hp (Nat.le_of_not_lt h)
    have hpos : 0 < 10 ^ (p - 1) := Nat.pow_pos (by decide)
    obtain ⟨k, -, htrim⟩ := trim_spec (p - 1) (significand p z.natAbs).1 (by omega)
    have hle : trim (p - 1) (significand p z.natAbs).1 ≤ (significand p z.natAbs).1 := by
      conv_rhs => rw [htrim]
      exact Nat.le_mul_of_pos_right _ (Nat.pow_pos (by decide))
    have hdig := length_numeral_le hp (Nat.lt_of_le_of_lt hle hhigh)
    have hlog : Nat.log 10 z.natAbs < 98 := Nat.log_lt_of_lt_pow (by omega) hz
    have hexp : (significand p z.natAbs).2 ≤ Nat.log 10 z.natAbs + 1 := by
      rw [significand]
      split <;> simp
    have hpnt := length_pointed_le (numeral (trim (p - 1) (significand p z.natAbs).1))
    rw [if_neg h, scientific, length_append, length_exponentText (by omega)]
    omega

end Decimal
