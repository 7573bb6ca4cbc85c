import Mathlib.Data.List.TakeWhile

/-!
# Texts as bytes and as units of 16 bits

A text has one unit for each character below `0x10000` and two for the others; in UTF-8 only the characters below 128 take
one byte.
-/

namespace Utf16

open List

def charUnits (c : Char) : List UInt16 :=
  if c.toNat < 0x10000 then [UInt16.ofNat c.toNat]
  else [UInt16.ofNat (0xd800 + (c.toNat - 0x10000) / 1024), UInt16.ofNat (0xdc00 + (c.toNat - 0x10000) % 1024)]

def units (s : String) : List UInt16 := s.toList.flatMap charUnits

/-- Every byte as a code unit of its own. -/
def widen (bytes : List UInt8) : List UInt16 := bytes.map (·.toUInt16)

theorem toByteArray_eq (s : String) : s.toByteArray.data.toList = s.toList.flatMap String.utf8EncodeChar := by
  rw [← String.utf8Encode_toList, List.utf8Encode]
  simp

/-! ### One character -/

section Char

variable {c : Char}

theorem encode_of_lt (h : c.toNat < 128) : String.utf8EncodeChar c = [UInt8.ofNat c.toNat] := by
  have hle : c.val.toNat ≤ 0x7f := Nat.le_of_lt_succ h
  simp only [String.utf8EncodeChar, if_pos hle]
  rfl

theorem charUnits_of_lt (h : c.toNat < 128) : charUnits c = [UInt16.ofNat c.toNat] := if_pos (Nat.lt_trans h (by decide))

theorem high_of_mem_encode (h : 128 ≤ c.toNat) {b : UInt8} (hb : b ∈ String.utf8EncodeChar c) : 128 ≤ b.toNat := by
  have hhigh : ∀ k n : Nat, 128 ≤ k → k + n < 256 → 128 ≤ (UInt8.ofNat (n + k)).toNat := by
    intro k n hk hlt
    rw [UInt8.toNat_ofNat']
    omega
  have hc : ¬c.val.toNat ≤ 0x7f := Nat.not_le.2 h
  simp only [String.utf8EncodeChar, if_neg hc] at hb
  split at hb
  · simp only [mem_cons, not_mem_nil, or_false] at hb
    rcases hb with rfl | rfl <;> exact hhigh _ _ (by decide) (by omega)
  · split at hb
    · simp only [mem_cons, not_mem_nil, or_false] at hb
      rcases hb with rfl | rfl | rfl <;> exact hhigh _ _ (by decide) (by omega)
    · simp only [mem_cons, not_mem_nil, or_false] at hb
      rcases hb with rfl | rfl | rfl | rfl <;> exact hhigh _ _ (by decide) (by omega)

theorem length_charUnits_lt (h : 128 ≤ c.toNat) : (charUnits c).length < (String.utf8EncodeChar c).length := by
  have hc : ¬c.val.toNat ≤ 0x7f := Nat.not_le.2 h
  have hval : c.toNat = c.val.toNat := rfl
  simp only [charUnits, String.utf8EncodeChar, if_neg hc, hval]
  split_ifs <;> simp
  omega

end Char

/-! ### Texts -/

section Lists

variable {l : List Char}

theorem length_units_le (l : List Char) : (l.flatMap charUnits).length ≤ (l.flatMap String.utf8EncodeChar).length := by
  induction l with
  | nil => exact Nat.le_refl 0
  | cons c l ih =>
    rw [flatMap_cons, flatMap_cons, length_append, length_append]
    by_cases hc : c.toNat < 128
    · rw [encode_of_lt hc, charUnits_of_lt hc]
      exact Nat.add_le_add_left ih 1
    · have := length_charUnits_lt (Nat.le_of_not_lt hc)
      omega

theorem length_units_lt {c : Char} (hc : c ∈ l) (hge : 128 ≤ c.toNat) :
    (l.flatMap charUnits).length < (l.flatMap String.utf8EncodeChar).length := by
  obtain ⟨xs, ys, rfl⟩ := append_of_mem hc
  have hxs := length_units_le xs
  have hys := length_units_le ys
  have hchar := length_charUnits_lt hge
  simp only [flatMap_append, flatMap_cons, length_append]
  omega

theorem encode_of_forall_lt (h : ∀ c ∈ l, c.toNat < 128) :
    l.flatMap String.utf8EncodeChar = l.map fun c => UInt8.ofNat c.toNat := by
  induction l with
  | nil => rfl
  | cons c l ih =>
    rw [flatMap_cons, encode_of_lt (h c mem_cons_self), ih fun x hx => h x (mem_cons_of_mem c hx)]
    rfl

theorem units_of_forall_lt (h : ∀ c ∈ l, c.toNat < 128) : l.flatMap charUnits = l.map fun c => UInt16.ofNat c.toNat := by
  induction l with
  | nil => rfl
  | cons c l ih =>
    rw [flatMap_cons, charUnits_of_lt (h c mem_cons_self), ih fun x hx => h x (mem_cons_of_mem c hx)]
    rfl

theorem exists_of_zero_mem (h : 0 ∈ l.flatMap String.utf8EncodeChar) : ∃ c ∈ l, c.toNat = 0 := by
  obtain ⟨c, hc, hzero⟩ := mem_flatMap.1 h
  refine ⟨c, hc, ?_⟩
  by_cases hlt : c.toNat < 128
  · rw [encode_of_lt hlt, mem_singleton] at hzero
    have := congrArg UInt8.toNat hzero
    rw [UInt8.toNat_ofNat'] at this
    change 0 = _ at this
    omega
  · exact absurd (high_of_mem_encode (Nat.le_of_not_lt hlt) hzero) (by decide)

end Lists

theorem units_eq_iff (s : String) :
    widen (s.toByteArray.data.toList.takeWhile (· ≠ 0)) = units s ↔ ∀ c ∈ s.toList, 0 < c.toNat ∧ c.toNat < 128 := by
  rw [toByteArray_eq, units]
  constructor
  · intro heq
    have hzero : ∀ c ∈ s.toList, c.toNat ≠ 0 := by
      intro c hc hnat
      have hmem : 0 ∈ s.toList.flatMap charUnits :=
        mem_flatMap.2 ⟨c, hc, by rw [charUnits_of_lt (by omega), hnat]; exact mem_singleton_self _⟩
      rw [← heq] at hmem
      obtain ⟨b, hb, hwide⟩ := mem_map.1 hmem
      have hne : b ≠ 0 := by simpa using mem_takeWhile_imp hb
      refine hne (UInt8.toNat_inj.1 ?_)
      rw [← UInt8.toNat_toUInt16, hwide]
      rfl
    have hall : (s.toList.flatMap String.utf8EncodeChar).takeWhile (· ≠ 0) = s.toList.flatMap String.utf8EncodeChar := by
      refine takeWhile_eq_self_iff.2 fun b hb => decide_eq_true ?_
      rintro rfl
      obtain ⟨c, hc, hnat⟩ := exists_of_zero_mem hb
      exact hzero c hc hnat
    rw [hall] at heq
    intro c hc
    refine ⟨Nat.pos_of_ne_zero (hzero c hc), Nat.lt_of_not_le fun hge => ?_⟩
    have hlt := length_units_lt hc hge
    rw [← heq, widen, length_map] at hlt
    exact Nat.lt_irrefl _ hlt
  · intro h
    have hlt : ∀ c ∈ s.toList, c.toNat < 128 := fun c hc => (h c hc).2
    have hall : (s.toList.map fun c => UInt8.ofNat c.toNat).takeWhile (· ≠ 0) = s.toList.map fun c => UInt8.ofNat c.toNat := by
      refine takeWhile_eq_self_iff.2 fun b hb => decide_eq_true ?_
      obtain ⟨c, hc, rfl⟩ := mem_map.1 hb
      intro hzero
      have hnat := congrArg UInt8.toNat hzero
      rw [UInt8.toNat_ofNat'] at hnat
      change _ = 0 at hnat
      have := h c hc
      omega
    rw [encode_of_forall_lt hlt, units_of_forall_lt hlt, hall, widen, map_map]
    refine map_congr_left fun c hc => UInt16.toNat_inj.1 ?_
    have := hlt c hc
    rw [Function.comp_apply, UInt8.toNat_toUInt16, UInt8.toNat_ofNat', UInt16.toNat_ofNat']
    omega

end Utf16
